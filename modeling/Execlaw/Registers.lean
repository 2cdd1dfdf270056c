import Mathlib.Order.WithBot
import Mathlib.Data.List.Induction
/-!
# Registers — the latest write wins

A cell carries the stamp of its last write, or none.  A write goes through where its own stamp is greater.  After any
number of writes, in any order and with any repetitions, the cell was last written by the greatest that is newer than
the cell was (`writeAll_cases`); what a write determines by itself therefore does not depend on the order
(`writeAll_congr`).
-/
namespace Registers

variable {σ ω τ : Type} [LinearOrder τ]

structure Register (σ ω τ : Type) [LinearOrder τ] where
  stamp : σ → WithBot τ
  at_ : ω → τ
  put : ω → σ → σ
  stamp_put : ∀ o s, stamp (put o s) = at_ o

namespace Register

variable (R : Register σ ω τ)

def write (s : σ) (o : ω) : σ := if R.stamp s < R.at_ o then R.put o s else s

def writeAll (l : List ω) (s : σ) : σ := l.foldl R.write s

variable {R} {s : σ} {l l' : List ω} {o g : ω}

@[simp] theorem writeAll_nil : R.writeAll [] s = s := rfl

theorem writeAll_snoc (l : List ω) (o : ω) (s : σ) : R.writeAll (l ++ [o]) s = R.write (R.writeAll l s) o := by
  simp [writeAll]

theorem writeAll_append (l l' : List ω) (s : σ) : R.writeAll (l ++ l') s = R.writeAll l' (R.writeAll l s) := by
  simp [writeAll]

theorem write_of_le (h : (R.at_ o : WithBot τ) ≤ R.stamp s) : R.write s o = s := if_neg (not_lt.2 h)

theorem write_of_lt (h : R.stamp s < R.at_ o) : R.write s o = R.put o s := if_pos h

theorem writeAll_of_le (h : ∀ o ∈ l, (R.at_ o : WithBot τ) ≤ R.stamp s) : R.writeAll l s = s := by
  induction l with
  | nil => rfl
  | cons o l ih =>
    change R.writeAll l (R.write s o) = s
    rw [write_of_le (h o List.mem_cons_self)]
    exact ih fun o ho => h o (List.mem_cons_of_mem _ ho)

variable (R) in
structure Newest (l : List ω) (s : σ) (g : ω) : Prop where
  mem : g ∈ l
  newer : R.stamp s < R.at_ g
  greatest : ∀ o ∈ l, R.at_ o ≤ R.at_ g

theorem writeAll_cases (l : List ω) (s : σ) :
    ((∀ o ∈ l, (R.at_ o : WithBot τ) ≤ R.stamp s) ∧ R.writeAll l s = s) ∨
      ∃ g pre suf, l = pre ++ g :: suf ∧ R.Newest l s g ∧ R.writeAll l s = R.put g (R.writeAll pre s) := by
  induction l using List.reverseRecOn with
  | nil => exact .inl ⟨nofun, rfl⟩
  | append_singleton l o ih =>
    rw [writeAll_snoc]
    rcases ih with ⟨hold, hsame⟩ | ⟨g, pre, suf, hl, hg, hput⟩
    · rw [hsame]
      by_cases ho : R.stamp s < R.at_ o
      · refine .inr ⟨o, l, [], rfl, ⟨by simp, ho, fun o' ho' => ?_⟩, by rw [write_of_lt ho, hsame]⟩
        rcases List.mem_append.1 ho' with ho' | ho'
        · exact (WithBot.coe_lt_coe.1 ((hold o' ho').trans_lt ho)).le
        · rw [List.mem_singleton.1 ho']
      · refine .inl ⟨fun o' ho' => ?_, write_of_le (not_lt.1 ho)⟩
        rcases List.mem_append.1 ho' with ho' | ho'
        · exact hold o' ho'
        · exact List.mem_singleton.1 ho' ▸ not_lt.1 ho
    · have hstamp : R.stamp (R.writeAll l s) = R.at_ g := by rw [hput, R.stamp_put]
      by_cases ho : R.at_ g < R.at_ o
      · have hlt : R.stamp (R.writeAll l s) < R.at_ o := by
          rw [hstamp]
          exact WithBot.coe_lt_coe.2 ho
        refine .inr ⟨o, l, [], rfl, ⟨by simp, hg.newer.trans (WithBot.coe_lt_coe.2 ho), fun o' ho' => ?_⟩, write_of_lt hlt⟩
        rcases List.mem_append.1 ho' with ho' | ho'
        · exact (hg.greatest o' ho').trans ho.le
        · rw [List.mem_singleton.1 ho']
      · refine .inr ⟨g, pre, suf ++ [o], by simp [hl], ⟨by simp [hg.mem], hg.newer, fun o' ho' => ?_⟩, ?_⟩
        · rcases List.mem_append.1 ho' with ho' | ho'
          · exact hg.greatest o' ho'
          · exact List.mem_singleton.1 ho' ▸ not_lt.1 ho
        · rw [write_of_le, hput]
          rw [hstamp]
          exact WithBot.coe_le_coe.2 (not_lt.1 ho)

theorem le_stamp_writeAll (ho : o ∈ l) : (R.at_ o : WithBot τ) ≤ R.stamp (R.writeAll l s) := by
  rcases writeAll_cases (R := R) l s with ⟨hold, hsame⟩ | ⟨g, pre, suf, -, hg, hput⟩
  · rw [hsame]
    exact hold o ho
  · rw [hput, R.stamp_put]
    exact WithBot.coe_le_coe.2 (hg.greatest o ho)

theorem write_of_mem (ho : o ∈ l) : R.write (R.writeAll l s) o = R.writeAll l s := write_of_le (le_stamp_writeAll ho)

theorem Newest.congr (hg : R.Newest l s g) (hmem : ∀ o, o ∈ l ↔ o ∈ l') : R.Newest l' s g :=
  ⟨(hmem g).1 hg.mem, hg.newer, fun o ho => hg.greatest o ((hmem o).2 ho)⟩

theorem writeAll_newest (hinj : ∀ o ∈ l, ∀ o' ∈ l, R.at_ o = R.at_ o' → o = o') (hg : R.Newest l s g) :
    ∃ pre suf, l = pre ++ g :: suf ∧ R.writeAll l s = R.put g (R.writeAll pre s) := by
  rcases writeAll_cases (R := R) l s with ⟨hold, -⟩ | ⟨g', pre, suf, hl, hg', hput⟩
  · exact absurd hg.newer (not_lt.2 (hold g hg.mem))
  · obtain rfl := hinj g hg.mem g' hg'.mem (le_antisymm (hg'.greatest g hg.mem) (hg.greatest g' hg'.mem))
    exact ⟨pre, suf, hl, hput⟩

theorem writeAll_congr {α : Type} {f : σ → α} (hf : ∀ o s s', f (R.put o s) = f (R.put o s'))
    (hinj : ∀ o ∈ l, ∀ o' ∈ l, R.at_ o = R.at_ o' → o = o') (hmem : ∀ o, o ∈ l ↔ o ∈ l') :
    f (R.writeAll l s) = f (R.writeAll l' s) := by
  rcases writeAll_cases (R := R) l s with ⟨hold, hsame⟩ | ⟨g, pre, suf, -, hg, hput⟩
  · rw [hsame, writeAll_of_le fun o ho => hold o ((hmem o).2 ho)]
  · have hinj' : ∀ o ∈ l', ∀ o' ∈ l', R.at_ o = R.at_ o' → o = o' :=
      fun o ho o' ho' => hinj o ((hmem o).2 ho) o' ((hmem o').2 ho')
    obtain ⟨pre', suf', -, hput'⟩ := writeAll_newest hinj' (hg.congr hmem)
    rw [hput, hput']
    exact hf g _ _

theorem writeAll_invariant {P : σ → Prop} (hs : P s)
    (hput : ∀ o ∈ l, ∀ s', R.stamp s < R.at_ o → P s' → P (R.put o s')) : P (R.writeAll l s) := by
  induction l using List.reverseRecOn with
  | nil => exact hs
  | append_singleton l o ih =>
    have hl := ih fun o ho => hput o (by simp [ho])
    rw [writeAll_snoc]
    by_cases ho : R.stamp (R.writeAll l s) < R.at_ o
    · rw [write_of_lt ho]
      refine hput o (by simp) _ (lt_of_le_of_lt ?_ ho) hl
      rcases writeAll_cases (R := R) l s with ⟨-, hsame⟩ | ⟨g, pre, suf, -, hg, heq⟩
      · rw [hsame]
      · rw [heq, R.stamp_put]
        exact hg.newer.le
    · rw [write_of_le (not_lt.1 ho)]
      exact hl

section Rows

variable {ρ : Type} (stamp : ρ → τ) (at_ : ω → τ) (insert : ω → ρ) (update : ω → ρ → ρ)

def ofRows (hinsert : ∀ o, stamp (insert o) = at_ o) (hupdate : ∀ o r, stamp (update o r) = at_ o) :
    Register (Option ρ) ω τ where
  stamp := fun c => c.elim ⊥ fun r => (stamp r : WithBot τ)
  at_ := at_
  put := fun o c => some (c.elim (insert o) (update o))
  stamp_put := by
    rintro o (_ | r)
    · exact congrArg _ (hinsert o)
    · exact congrArg _ (hupdate o r)

variable {stamp at_ insert update} {hinsert : ∀ o, stamp (insert o) = at_ o} {hupdate : ∀ o r, stamp (update o r) = at_ o}

@[simp] theorem write_none (o : ω) : (ofRows stamp at_ insert update hinsert hupdate).write none o = some (insert o) :=
  write_of_lt (R := ofRows stamp at_ insert update hinsert hupdate) (WithBot.bot_lt_coe (at_ o))

theorem write_some (r : ρ) (o : ω) : (ofRows stamp at_ insert update hinsert hupdate).write (some r) o =
    some (if stamp r < at_ o then update o r else r) := by
  by_cases hlt : stamp r < at_ o
  · rw [if_pos hlt]
    exact write_of_lt (R := ofRows stamp at_ insert update hinsert hupdate) (WithBot.coe_lt_coe.2 hlt)
  · rw [if_neg hlt]
    exact write_of_le (R := ofRows stamp at_ insert update hinsert hupdate) (WithBot.coe_le_coe.2 (not_lt.1 hlt))

end Rows

end Register

end Registers
