import Chronicle.Bytes

/-!
Stable sorting by a given order.
-/

namespace Chronicle

variable {α : Type}

/-- Puts an element behind those that come before it. -/
def insertBy (before : α → α → Bool) (x : α) : List α → List α
  | [] => [x]
  | y :: rest => if before y x then y :: insertBy before x rest else x :: y :: rest

/-- Ascending order; elements of which neither comes before the other stay in their order. -/
def sortBy (before : α → α → Bool) (xs : List α) : List α := xs.foldr (insertBy before) []

theorem insertBy_perm (before : α → α → Bool) (x : α) (xs : List α) :
    (insertBy before x xs).Perm (x :: xs) := by
  induction xs with
  | nil => rfl
  | cons y rest ih =>
    simp only [insertBy]
    split
    · exact (ih.cons y).trans (.swap x y rest)
    · rfl

theorem sortBy_perm (before : α → α → Bool) (xs : List α) : (sortBy before xs).Perm xs := by
  induction xs with
  | nil => rfl
  | cons x rest ih => exact (insertBy_perm before x _).trans (ih.cons x)

theorem sortBy_eq_self {before : α → α → Bool} {xs : List α}
    (h : xs.Pairwise fun x y => before y x = false) : sortBy before xs = xs := by
  induction h with
  | nil => rfl
  | cons hfirst _ ih =>
    rename_i x rest _
    change insertBy before x (sortBy before rest) = x :: rest
    rw [ih]
    cases rest with
    | nil => rfl
    | cons y rest => simp [insertBy, hfirst y List.mem_cons_self]

section

variable {before before' : α → α → Bool} {x : α} {xs : List α}

theorem insertBy_congr (h : ∀ y ∈ xs, before y x = before' y x) : insertBy before x xs = insertBy before' x xs := by
  induction xs with
  | nil => rfl
  | cons y rest ih =>
    rw [insertBy, insertBy, h y List.mem_cons_self, ih fun z hz => h z (List.mem_cons_of_mem _ hz)]

/-- Sorting asks for the order of the elements only. -/
theorem sortBy_congr (h : ∀ a ∈ xs, ∀ b ∈ xs, before a b = before' a b) : sortBy before xs = sortBy before' xs := by
  induction xs with
  | nil => rfl
  | cons x rest ih =>
    have hrest := ih fun a ha b hb => h a (List.mem_cons_of_mem _ ha) b (List.mem_cons_of_mem _ hb)
    change insertBy before x (sortBy before rest) = insertBy before' x (sortBy before' rest)
    rw [hrest]
    refine insertBy_congr fun y hy => h y ?_ x List.mem_cons_self
    exact List.mem_cons_of_mem _ ((sortBy_perm _ _).mem_iff.mp hy)

end

section

variable {β : Type} [LE β] [LT β] [DecidableLT β] [Std.IsLinearOrder β] [Std.LawfulOrderLT β]
  (key : α → β)

theorem insertBy_pairwise (x : α) {xs : List α} (h : xs.Pairwise fun a b => key a ≤ key b) :
    (insertBy (fun a b => decide (key a < key b)) x xs).Pairwise fun a b => key a ≤ key b := by
  induction h with
  | nil => exact List.pairwise_singleton _ x
  | @cons y rest hfirst hrest ih =>
    simp only [insertBy, decide_eq_true_eq]
    split
    · next hlt =>
      refine List.pairwise_cons.mpr ⟨fun z hz => ?_, ih⟩
      rcases List.mem_cons.mp ((insertBy_perm _ x rest).mem_iff.mp hz) with rfl | hz
      · exact Std.le_of_lt hlt
      · exact hfirst z hz
    · next hnot =>
      have hle : key x ≤ key y := Std.not_lt.mp hnot
      refine List.pairwise_cons.mpr ⟨fun z hz => ?_, List.pairwise_cons.mpr ⟨hfirst, hrest⟩⟩
      rcases List.mem_cons.mp hz with rfl | hz
      · exact hle
      · exact Std.le_trans hle (hfirst z hz)

theorem sortBy_pairwise (xs : List α) :
    (sortBy (fun a b => decide (key a < key b)) xs).Pairwise fun a b => key a ≤ key b := by
  induction xs with
  | nil => exact List.Pairwise.nil
  | cons x rest ih => exact insertBy_pairwise key x ih

theorem sortBy_key_eq_self {xs : List α} (h : xs.Pairwise fun a b => key a ≤ key b) :
    sortBy (fun a b => decide (key a < key b)) xs = xs :=
  sortBy_eq_self (h.imp fun hle => decide_eq_false (Std.not_lt.mpr hle))

theorem sortBy_strictly {xs : List α} (h : (xs.map key).Nodup) :
    (sortBy (fun a b => decide (key a < key b)) xs).Pairwise fun a b => key a < key b := by
  have hdistinct : ((sortBy (fun a b => decide (key a < key b)) xs).map key).Nodup :=
    ((sortBy_perm _ xs).map key).nodup_iff.mpr h
  exact ((sortBy_pairwise key xs).and (List.pairwise_map.mp hdistinct)).imp fun hboth =>
    Std.lt_of_le_of_ne hboth.1 hboth.2

end

theorem eq_of_perm_of_strictly {β : Type} [LE β] [LT β] [Std.IsPreorder β] [Std.LawfulOrderLT β] {key : α → β}
    {xs ys : List α} (h : xs.Perm ys) (hxs : xs.Pairwise fun a b => key a < key b)
    (hys : ys.Pairwise fun a b => key a < key b) : xs = ys :=
  h.eq_of_pairwise (fun _ _ _ _ hlt hgt => absurd hgt (Std.not_gt_of_lt hlt)) hxs hys

end Chronicle
