import Mathlib.Data.List.Nodup
import Mathlib.Data.Int.Order.Basic
/-!
# Leases — who holds what, until when

A lease is granted to a holder for a key at one clock and runs out at another.  It is held until its holder gives it
up, or until a lease of its key is granted at a clock at which it has run out: then it is taken over.  A store that
records one lease a key, and grants no lease of a key before the recorded one has run out, has at most one holder a
key (`Recorded`).
-/
namespace Leases

structure Lease (κ η : Type) where
  key : κ
  holder : η
  since : Int
  expires : Int

section Held

variable {κ η : Type} [DecidableEq κ] [DecidableEq η]

def grant (l : Lease κ η) (held : List (Lease κ η)) : List (Lease κ η) :=
  held.filter (fun m => !(decide (m.key = l.key) && decide (m.expires ≤ l.since))) ++ [l]

def giveUp (k : κ) (h : η) (held : List (Lease κ η)) : List (Lease κ η) :=
  held.filter (fun m => !(decide (m.key = k) && decide (m.holder = h)))

/-- **At no time are two leases of one key held unexpired.** -/
def Exclusive (held : List (Lease κ η)) : Prop :=
  ∀ (t : Int), ∀ l ∈ held, ∀ m ∈ held, l.key = m.key → t < l.expires → t < m.expires → l = m

structure Recorded (record : κ → Option Int) (held : List (Lease κ η)) : Prop where
  once : (held.map Lease.key).Nodup
  recorded : ∀ l ∈ held, record l.key = some l.expires

variable {record record' : κ → Option Int} {held : List (Lease κ η)}

omit [DecidableEq κ] [DecidableEq η] in
theorem recorded_nil : Recorded record ([] : List (Lease κ η)) := ⟨List.nodup_nil, nofun⟩

omit [DecidableEq κ] [DecidableEq η] in
theorem Recorded.eq_of_key (h : Recorded record held) {l m : Lease κ η} (hl : l ∈ held) (hm : m ∈ held)
    (hk : l.key = m.key) : l = m :=
  List.inj_on_of_nodup_map h.once hl hm hk

omit [DecidableEq κ] [DecidableEq η] in
theorem Recorded.exclusive (h : Recorded record held) : Exclusive held := by
  intro t l hl m hm hk _ _
  exact h.eq_of_key hl hm hk

omit [DecidableEq κ] [DecidableEq η] in
theorem Recorded.of_eq (h : Recorded record held) (heq : ∀ l ∈ held, record' l.key = record l.key) :
    Recorded record' held :=
  ⟨h.once, fun l hl => (heq l hl).trans (h.recorded l hl)⟩

omit [DecidableEq η] in
theorem mem_grant {l m : Lease κ η} : m ∈ grant l held ↔ m ∈ held ∧ (m.key = l.key → l.since < m.expires) ∨ m = l := by
  simp [grant, imp_iff_not_or]

theorem mem_giveUp {k : κ} {h : η} {m : Lease κ η} : m ∈ giveUp k h held ↔ m ∈ held ∧ (m.key = k → m.holder ≠ h) := by
  simp [giveUp, imp_iff_not_or]

omit [DecidableEq η] in
theorem Recorded.grant (h : Recorded record held) {l : Lease κ η}
    (hout : ∀ e, record l.key = some e → e ≤ l.since) (hself : record' l.key = some l.expires)
    (hframe : ∀ k, k ≠ l.key → record' k = record k) : Recorded record' (grant l held) := by
  have hkeys : ∀ m ∈ held, (m.key = l.key → l.since < m.expires) → m.key ≠ l.key := by
    intro m hm hlive hk
    have hrun := hout m.expires (hk ▸ h.recorded m hm)
    exact absurd (hlive hk) (Int.not_lt.2 hrun)
  constructor
  · rw [Leases.grant, List.map_append, List.map_singleton, List.nodup_append]
    refine ⟨h.once.sublist (List.filter_sublist.map _), List.nodup_singleton _, ?_⟩
    intro a ha b hb hab
    obtain ⟨m, hm, rfl⟩ := List.mem_map.1 ha
    have hm' := List.mem_filter.1 hm
    refine hkeys m hm'.1 (fun hk => ?_) (hab.trans (List.mem_singleton.1 hb))
    simpa [hk] using hm'.2
  · intro m hm
    rcases mem_grant.1 hm with ⟨hm, hlive⟩ | rfl
    · rw [hframe m.key (hkeys m hm hlive), h.recorded m hm]
    · exact hself

theorem Recorded.giveUp (h : Recorded record held) {k : κ} {a : η}
    (hholds : ∀ l ∈ held, l.key = k → l.holder = a) (hframe : ∀ j, j ≠ k → record' j = record j) :
    Recorded record' (giveUp k a held) := by
  refine ⟨h.once.sublist (List.filter_sublist.map _), fun l hl => ?_⟩
  obtain ⟨hl, hother⟩ := mem_giveUp.1 hl
  have hk : l.key ≠ k := fun hk => hother hk (hholds l hl hk)
  rw [hframe l.key hk, h.recorded l hl]

theorem giveUp_eq_self {k : κ} {a : η} (h : ∀ l ∈ held, l.key = k → l.holder ≠ a) : giveUp k a held = held := by
  refine List.filter_eq_self.2 fun l hl => ?_
  by_cases hk : l.key = k
  · simp [hk, h l hl hk]
  · simp [hk]

end Held

end Leases
