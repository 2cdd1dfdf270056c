import Mathlib.Data.List.Basic
/-!
# RollingWindow — at most so many in any window

A limiter remembers the times it admitted.  At each request it forgets those a whole width old, and refuses while as many
as its cap are left (`admitAt`).  What it remembers counts like the log of all it ever admitted (`Tracks`), so no window of
that width holds more than the cap (`Spread`).
-/
namespace RollingWindow

/-- The times less than a width before `now`. -/
def recent (width now : Nat) (times : List Nat) : List Nat := times.filter fun t => now - t < width

/-- The times in the half-open window from `w`. -/
def within (width w : Nat) (times : List Nat) : List Nat := times.filter fun t => w ≤ t && t < w + width

def Spread (width cap : Nat) (times : List Nat) : Prop := ∀ w, (within width w times).length ≤ cap

/-- A request at `now`, and the times remembered after it. -/
def admitAt (width cap : Nat) (times : List Nat) (now : Nat) : Bool × List Nat :=
  let kept := recent width now times
  if cap ≤ kept.length then (false, kept) else (true, kept ++ [now])

/-- From `last` on, the times remembered count like the log. -/
def Tracks (width last : Nat) (log times : List Nat) : Prop :=
  ∀ now, last ≤ now → recent width now times = recent width now log

variable {width cap last now : Nat} {log times pre post : List Nat}

theorem recent_append : recent width now (pre ++ post) = recent width now pre ++ recent width now post :=
  List.filter_append ..

theorem within_append {w : Nat} : within width w (pre ++ post) = within width w pre ++ within width w post :=
  List.filter_append ..

theorem recent_recent {later : Nat} (h : now ≤ later) :
    recent width later (recent width now times) = recent width later times := by
  unfold recent
  rw [List.filter_filter]
  refine List.filter_congr fun t _ => ?_
  by_cases hlate : later - t < width
  · have hnow : now - t < width := by omega
    simp [hlate, hnow]
  · simp [hlate]

theorem Tracks.nil : Tracks width 0 [] [] := fun _ _ => rfl

theorem Tracks.later (h : Tracks width last log times) (hle : last ≤ now) : Tracks width now log times :=
  fun later hlater => h later (Nat.le_trans hle hlater)

theorem Tracks.admit_iff (h : Tracks width last log times) (hle : last ≤ now) :
    (admitAt width cap times now).1 = true ↔ (recent width now log).length < cap := by
  unfold admitAt
  rw [h now hle]
  by_cases hcap : cap ≤ (recent width now log).length
  · simp [hcap]
  · simp [hcap, Nat.lt_of_not_le hcap]

theorem Tracks.admitAt (h : Tracks width last log times) (hle : last ≤ now) :
    Tracks width now (if (RollingWindow.admitAt width cap times now).1 then log ++ [now] else log)
      (RollingWindow.admitAt width cap times now).2 := by
  intro later hlater
  have hkept : recent width later (recent width now times) = recent width later log := by
    rw [recent_recent hlater, h later (Nat.le_trans hle hlater)]
  unfold RollingWindow.admitAt
  by_cases hcap : cap ≤ (recent width now times).length
  · simp [hcap, hkept]
  · simp [hcap, hkept, recent_append]

theorem Spread.nil : Spread width cap [] := fun _ => Nat.zero_le _

theorem Spread.snoc (h : Spread width cap log) (hlast : ∀ t ∈ log, t ≤ now)
    (hcap : (recent width now log).length < cap) : Spread width cap (log ++ [now]) := by
  intro w
  by_cases hw : w ≤ now ∧ now < w + width
  · -- The window holds `now`, and what else it holds is recent at `now`.
    have hsub : (within width w log).length ≤ (recent width now log).length := by
      unfold within recent
      rw [← List.countP_eq_length_filter, ← List.countP_eq_length_filter]
      refine List.countP_mono_left fun t ht hin => ?_
      have hle := hlast t ht
      simp only [Bool.and_eq_true, decide_eq_true_eq] at hin ⊢
      omega
    rw [within_append, List.length_append]
    simp [within, hw]
    exact Nat.lt_of_le_of_lt hsub hcap
  · have hout : within width w [now] = [] := by
      unfold within
      rw [List.filter_eq_nil_iff]
      simpa using hw
    rw [within_append, hout, List.append_nil]
    exact h w

theorem Spread.recent_lt (h : Spread width cap (pre ++ now :: post)) (hwidth : 0 < width) (hlast : ∀ t ∈ pre, t ≤ now) :
    (recent width now pre).length < cap := by
  have hcap := h (now + 1 - width)
  have hsub : (recent width now pre).length ≤ (within width (now + 1 - width) pre).length := by
    unfold within recent
    rw [← List.countP_eq_length_filter, ← List.countP_eq_length_filter]
    refine List.countP_mono_left fun t ht hin => ?_
    have hle := hlast t ht
    simp only [Bool.and_eq_true, decide_eq_true_eq] at hin ⊢
    omega
  have hnow : within width (now + 1 - width) (now :: post) = now :: within width (now + 1 - width) post := by
    unfold within
    rw [List.filter_cons_of_pos]
    simp only [Bool.and_eq_true, decide_eq_true_eq]
    omega
  rw [within_append, hnow, List.length_append, List.length_cons] at hcap
  omega

end RollingWindow
