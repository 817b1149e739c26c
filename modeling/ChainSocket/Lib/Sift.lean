import Mathlib.Order.Nat
import Mathlib.Data.List.Perm.Basic
import Mathlib.Order.Lattice

/-!
# Binary heaps kept in a list

Position `i` has its parent at `(i - 1) / 2`. The sifts move one entry by swaps:

* `siftUp_ordered`, `siftDown_ordered`: each ends with an ordered list, from a
  list in which only the pairs around one position can be out of order;
* `append_upOrder`, `fill_upOrder`, `fill_downOrder`: the places such a list
  comes from, an entry added at the end or the last one moved into a gap;
* `root_least`: the entry at position 0 is least.
-/

namespace Sift

section
variable {α β : Type} [LinearOrder β] (key : α → β)

def parent (i : Nat) : Nat := (i - 1) / 2

/-- The entry at `i` sorts strictly before the entry at `j`. -/
def before (l : List α) (i j : Nat) : Bool :=
  match l[i]?, l[j]? with
  | some a, some b => decide (key a < key b)
  | _, _ => false

def siftUp (l : List α) (i : Nat) : List α :=
  if 0 < i ∧ before key l i (parent i) then siftUp (l.swap i (parent i)) (parent i) else l
termination_by i
decreasing_by unfold parent; omega

/-- The smaller child of `i`, the right one when they are level. -/
def minChild (l : List α) (i : Nat) : Nat :=
  if i * 2 + 2 = l.length ∨ before key l (i * 2 + 1) (i * 2 + 2) then i * 2 + 1 else i * 2 + 2

theorem minChild_gt (l : List α) (i : Nat) : i < minChild key l i := by
  unfold minChild; split <;> omega

def siftDown (l : List α) (i : Nat) : List α :=
  if i * 2 + 1 < l.length ∧ before key l i (minChild key l i) = false then
    siftDown (l.swap i (minChild key l i)) (minChild key l i)
  else l
termination_by l.length - i
decreasing_by
  have := minChild_gt key l i
  simp only [List.length_swap]; omega

/-- Every entry is at or after its parent. -/
def Ordered (l : List α) : Prop :=
  ∀ i a p, 0 < i → l[i]? = some a → l[parent i]? = some p → key p ≤ key a

/-- The children of `hole` are at or after its parent. -/
def Grand (l : List α) (hole : Nat) : Prop :=
  ∀ i a p, 0 < i → 0 < hole → parent i = hole → l[i]? = some a →
    l[parent hole]? = some p → key p ≤ key a

/-- In order but for the pair of `hole` and its parent. -/
structure UpOrder (l : List α) (hole : Nat) : Prop where
  except : ∀ i a p, 0 < i → i ≠ hole → l[i]? = some a → l[parent i]? = some p → key p ≤ key a
  grand : Grand key l hole

/-- In order but for the pairs of `hole` and its children. -/
structure DownOrder (l : List α) (hole : Nat) : Prop where
  except : ∀ i a p, 0 < i → parent i ≠ hole → l[i]? = some a → l[parent i]? = some p →
    key p ≤ key a
  grand : Grand key l hole

variable {key}

theorem swap_getElem? {l : List α} {i j : Nat} (hi : i < l.length) (hj : j < l.length) (k : Nat) :
    (l.swap i j)[k]? = if k = j then l[i]? else if k = i then l[j]? else l[k]? := by
  rw [List.swap_eq_of_lt hi hj]
  simp only [List.getElem?_set, List.length_set]
  grind

theorem before_iff {l : List α} {i j : Nat} {a b : α} (ha : l[i]? = some a) (hb : l[j]? = some b) :
    before key l i j = true ↔ key a < key b := by
  simp [before, ha, hb]

theorem parent_lt {i : Nat} (h : 0 < i) : parent i < i := by
  unfold parent; omega

theorem child_iff {i p : Nat} (h : 0 < i) : parent i = p ↔ i = p * 2 + 1 ∨ i = p * 2 + 2 := by
  unfold parent; omega

/-- An index inside the list holds an entry. -/
theorem entry {l : List α} {i : Nat} (h : i < l.length) : ∃ a, l[i]? = some a :=
  ⟨l[i], List.getElem?_eq_getElem h⟩

theorem entry_lt {l : List α} {i : Nat} {a : α} (h : l[i]? = some a) : i < l.length :=
  (List.getElem?_eq_some_iff.mp h).1

/-! ## Up -/

theorem UpOrder.move {l : List α} {i : Nat} {a q : α} (o : UpOrder key l i) (hi : 0 < i)
    (ha : l[i]? = some a) (hq : l[parent i]? = some q) (hlt : key a < key q) :
    UpOrder key (l.swap i (parent i)) (parent i) := by
  have hip := parent_lt hi
  have at' := swap_getElem? (entry_lt ha) (entry_lt hq)
  constructor
  · intro j b p hj hne hb hp
    rw [at'] at hb hp
    by_cases hji : j = i
    · -- the old parent now sits at `i`, under the entry that moved up
      subst hji
      have : p = a := by simpa [ha] using hp.symm
      have : b = q := by simpa [hne, hq] using hb.symm
      subst p b; exact hlt.le
    · have hb' : l[j]? = some b := by simpa [hne, hji] using hb
      by_cases hpj : parent j = parent i
      · have : p = a := by simpa [hpj, ha] using hp.symm
        subst p
        exact hlt.le.trans (o.except j b q hj hji hb' (hpj ▸ hq))
      · by_cases hpi : parent j = i
        · have : p = q := by simpa [hpj, hpi, hq, hip.ne'] using hp.symm
          subst p
          exact o.grand j b q hj hi hpi hb' hq
        · have hp' : l[parent j]? = some p := by simpa [hpj, hpi] using hp
          exact o.except j b p hj hji hb' hp'
  · intro j b p hj hpp hpj hb hp
    have hgp := parent_lt hpp
    rw [at'] at hb hp
    have hp' : l[parent (parent i)]? = some p := by
      simpa [hgp.ne, (hgp.trans hip).ne] using hp
    have hqp : key p ≤ key q := o.except (parent i) q p hpp hip.ne hq hp'
    by_cases hji : j = i
    · have : b = q := by subst hji; simpa [hip.ne', hq] using hb.symm
      subst b; exact hqp
    · have hjp : j ≠ parent i := by have := parent_lt hj; omega
      have hb' : l[j]? = some b := by simpa [hjp, hji] using hb
      exact hqp.trans (o.except j b q hj hji hb' (hpj ▸ hq))

theorem UpOrder.finish {l : List α} {i : Nat} (o : UpOrder key l i)
    (hstop : 0 < i → before key l i (parent i) = false) : Ordered key l := by
  intro j a p hj ha hp
  by_cases hji : j = i
  · subst hji
    have := hstop hj
    rw [← Bool.not_eq_true, before_iff ha hp] at this
    exact not_lt.mp this
  · exact o.except j a p hj hji ha hp

theorem siftUp_ordered {l : List α} {i : Nat} (hi : i < l.length) (o : UpOrder key l i) :
    Ordered key (siftUp key l i) := by
  induction l, i using siftUp.induct key with
  | case1 l i h ih =>
    rw [siftUp, if_pos h]
    obtain ⟨a, ha⟩ := entry hi
    obtain ⟨q, hq⟩ := entry ((parent_lt h.1).trans hi)
    have hlt := (before_iff ha hq).mp h.2
    exact ih (by rw [List.length_swap]; exact entry_lt hq) (o.move h.1 ha hq hlt)
  | case2 l i h =>
    rw [siftUp, if_neg h]
    apply o.finish
    intro hi0
    simpa [hi0] using h

theorem siftUp_perm (l : List α) (i : Nat) : (siftUp key l i).Perm l := by
  induction l, i using siftUp.induct key with
  | case1 l i h ih => rw [siftUp, if_pos h]; exact ih.trans (List.swap_perm _ _ _)
  | case2 l i h => rw [siftUp, if_neg h]

/-! ## Down -/

theorem minChild_spec (key : α → β) {l : List α} {i : Nat} (h : i * 2 + 1 < l.length) :
    minChild key l i < l.length ∧ parent (minChild key l i) = i ∧
    ∀ j b c, 0 < j → parent j = i → l[j]? = some b → l[minChild key l i]? = some c →
      key c ≤ key b := by
  obtain ⟨x, hx⟩ := entry h
  unfold minChild
  split
  · rename_i left
    refine ⟨h, by unfold parent; omega, ?_⟩
    intro j b c hj hji hb hc
    obtain rfl : x = c := Option.some.inj (hx.symm.trans hc)
    rcases (child_iff hj).mp hji with rfl | rfl
    · obtain rfl : x = b := Option.some.inj (hx.symm.trans hb)
      exact le_refl _
    · rcases left with last | less
      · have := entry_lt hb; omega
      · exact ((before_iff hx hb).mp less).le
  · rename_i right
    simp only [not_or, Bool.not_eq_true] at right
    refine ⟨by omega, by unfold parent; omega, ?_⟩
    intro j b c hj hji hb hc
    rcases (child_iff hj).mp hji with rfl | rfl
    · have := right.2
      rw [← Bool.not_eq_true, before_iff hb hc] at this
      exact not_lt.mp this
    · obtain rfl : b = c := Option.some.inj (hb.symm.trans hc)
      exact le_refl _

theorem DownOrder.move {l : List α} {i : Nat} (o : DownOrder key l i) (h : i * 2 + 1 < l.length)
    (hb : before key l i (minChild key l i) = false) :
    DownOrder key (l.swap i (minChild key l i)) (minChild key l i) := by
  obtain ⟨hm, hmp, hmin⟩ := minChild_spec key h
  have hgt := minChild_gt key l i
  generalize minChild key l i = m at *
  obtain ⟨a, ha⟩ := entry (l := l) (i := i) (by omega)
  obtain ⟨c, hc⟩ := entry hm
  have hca : key c ≤ key a := by
    rw [← Bool.not_eq_true, before_iff ha hc] at hb
    exact not_lt.mp hb
  have at' := swap_getElem? (entry_lt ha) hm
  constructor
  · intro j b p hj hpm hjb hjp
    rw [at'] at hjb hjp
    by_cases hjm : j = m
    · -- the pair of the hole and the child that moved up
      subst hjm
      have : b = a := by simpa [ha] using hjb.symm
      have : p = c := by simpa [hmp, hgt.ne, hc] using hjp.symm
      subst b p; exact hca
    · by_cases hji : j = i
      · subst hji
        have : b = c := by simpa [hjm, hc] using hjb.symm
        subst b
        have hpj := parent_lt hj
        have hp' : l[parent j]? = some p := by simpa [hpm, hpj.ne] using hjp
        exact o.grand m c p (by omega) hj hmp hc hp'
      · have hb' : l[j]? = some b := by simpa [hjm, hji] using hjb
        by_cases hpi : parent j = i
        · have : p = c := by simpa [hpi, hgt.ne, hc] using hjp.symm
          subst p
          exact hmin j b c hj hpi hb' hc
        · have hp' : l[parent j]? = some p := by simpa [hpm, hpi] using hjp
          exact o.except j b p hj hpi hb' hp'
  · intro j b p hj hm0 hjm hjb hjp
    rw [at'] at hjb hjp
    have hmj := parent_lt hj
    have hb' : l[j]? = some b := by
      simpa [show j ≠ m by omega, show j ≠ i by omega] using hjb
    have : p = c := by simpa [hmp, hgt.ne, hc] using hjp.symm
    subst p
    exact o.except j b c hj (by omega) hb' (hjm ▸ hc)

theorem DownOrder.finish {l : List α} {i : Nat} (o : DownOrder key l i)
    (hstop : i * 2 + 1 < l.length → before key l i (minChild key l i) = true) :
    Ordered key l := by
  intro j b p hj hb hp
  by_cases hpi : parent j = i
  · have h : i * 2 + 1 < l.length := by
      have := entry_lt hb
      rcases (child_iff hj).mp hpi with rfl | rfl <;> omega
    obtain ⟨hm, _, hmin⟩ := minChild_spec key h
    obtain ⟨c, hc⟩ := entry hm
    have hlt := (before_iff (hpi ▸ hp) hc).mp (hstop h)
    exact hlt.le.trans (hmin j b c hj hpi hb hc)
  · exact o.except j b p hj hpi hb hp

theorem siftDown_ordered {l : List α} {i : Nat} (o : DownOrder key l i) :
    Ordered key (siftDown key l i) := by
  induction l, i using siftDown.induct key with
  | case1 l i h ih => rw [siftDown, if_pos h]; exact ih (o.move h.1 h.2)
  | case2 l i h =>
    rw [siftDown, if_neg h]
    apply o.finish
    intro hi
    simpa [hi] using h

theorem siftDown_perm (l : List α) (i : Nat) : (siftDown key l i).Perm l := by
  induction l, i using siftDown.induct key with
  | case1 l i h ih => rw [siftDown, if_pos h]; exact ih.trans (List.swap_perm _ _ _)
  | case2 l i h => rw [siftDown, if_neg h]

/-! ## Where the sifts start -/

theorem append_upOrder {l : List α} (o : Ordered key l) (a : α) :
    UpOrder key (l ++ [a]) l.length := by
  have inside : ∀ {j : Nat} {b : α}, (l ++ [a])[j]? = some b → j ≠ l.length → l[j]? = some b := by
    intro j b hb hj
    have := entry_lt hb
    simp only [List.length_append, List.length_singleton] at this
    rwa [List.getElem?_append_left (by omega)] at hb
  constructor
  · intro i b p hi hne hb hp
    have hb' := inside hb hne
    have := entry_lt hb'
    exact o i b p hi hb' (inside hp (by have := parent_lt hi; omega))
  · intro i b p hi _ hpi hb
    have hlt := entry_lt hb
    have := parent_lt hi
    simp only [List.length_append, List.length_singleton] at hlt
    omega

/-- The last entry moved into position `i`, the last position given up. -/
def fill (l : List α) (i : Nat) : List α := (l.swap i (l.length - 1)).dropLast

theorem fill_getElem? {l : List α} {i j : Nat} {b : α} (hi : i + 1 < l.length)
    (hb : (fill l i)[j]? = some b) (hj : j ≠ i) : l[j]? = some b := by
  have hlt := entry_lt hb
  simp only [fill, List.length_dropLast, List.length_swap] at hlt
  simp only [fill, List.getElem?_dropLast, List.length_swap, hlt, ↓reduceIte] at hb
  rwa [swap_getElem? (by omega) (by omega), if_neg (by omega), if_neg hj] at hb

theorem fill_grand {l : List α} {i : Nat} (o : Ordered key l) (hi : i + 1 < l.length) :
    Grand key (fill l i) i := by
  intro j b p hj hi0 hji hb hp
  have hij := parent_lt hj
  have hb' := fill_getElem? hi hb (by omega)
  have hp' := fill_getElem? hi hp (by have := parent_lt hi0; omega)
  obtain ⟨c, hc⟩ := entry (l := l) (i := i) (by omega)
  exact (o i c p hi0 hc hp').trans (o j b c hj hb' (hji ▸ hc))

/-- The entry moved into the gap is before its parent: only that pair is out of order. -/
theorem fill_upOrder {l : List α} {i : Nat} (o : Ordered key l) (hi : i + 1 < l.length)
    (hi0 : 0 < i) (hb : before key (fill l i) i (parent i) = true) :
    UpOrder key (fill l i) i := by
  refine ⟨?_, fill_grand o hi⟩
  intro j b p hj hji hjb hjp
  have hb' := fill_getElem? hi hjb hji
  by_cases hpi : parent j = i
  · have hfi : i < (fill l i).length := by
      simp only [fill, List.length_dropLast, List.length_swap]; omega
    obtain ⟨x, hx⟩ := entry hfi
    obtain ⟨q, hq⟩ := entry ((parent_lt hi0).trans hfi)
    obtain rfl : x = p := Option.some.inj (hx.symm.trans (hpi ▸ hjp))
    have hlt := (before_iff hx hq).mp hb
    exact hlt.le.trans (fill_grand o hi j b q hj hi0 hpi hjb hq)
  · exact o j b p hj hb' (fill_getElem? hi hjp hpi)

/-- The entry moved into the gap is not before its parent: only the pairs below it can be
out of order. -/
theorem fill_downOrder {l : List α} {i : Nat} (o : Ordered key l) (hi : i + 1 < l.length)
    (hb : 0 < i → before key (fill l i) i (parent i) = false) :
    DownOrder key (fill l i) i := by
  refine ⟨?_, fill_grand o hi⟩
  intro j b p hj hpi hjb hjp
  have hp' := fill_getElem? hi hjp hpi
  by_cases hji : j = i
  · subst hji
    have := hb hj
    rw [← Bool.not_eq_true, before_iff hjb hjp] at this
    exact not_lt.mp this
  · exact o j b p hj (fill_getElem? hi hjb hji) hp'

theorem dropLast_ordered {l : List α} (o : Ordered key l) : Ordered key l.dropLast := by
  intro i a p hi ha hp
  simp only [List.getElem?_dropLast] at ha hp
  split at ha
  · split at hp
    · exact o i a p hi ha hp
    · cases hp
  · cases ha

theorem fill_cons {l : List α} {i : Nat} {a : α} (ha : l[i]? = some a) :
    (a :: fill l i).Perm l := by
  have hi := entry_lt ha
  have hlast : (l.swap i (l.length - 1))[l.length - 1]? = some a := by
    rw [swap_getElem? hi (by omega), if_pos rfl, ha]
  have hne : l.swap i (l.length - 1) ≠ [] := by
    intro h
    have := congrArg List.length h
    simp only [List.length_swap, List.length_nil] at this
    omega
  have hl : (l.swap i (l.length - 1)).getLast hne = a := by
    have := List.getLast?_eq_getElem? (l := l.swap i (l.length - 1))
    rw [List.length_swap, hlast, List.getLast?_eq_some_getLast hne] at this
    exact Option.some.inj this
  have hsplit := List.dropLast_append_getLast hne
  rw [hl] at hsplit
  have hp := (List.perm_append_singleton a (fill l i)).symm
  rw [show fill l i ++ [a] = l.swap i (l.length - 1) from hsplit] at hp
  exact hp.trans (List.swap_perm l i (l.length - 1))

theorem root_least {l : List α} (o : Ordered key l) {r : α} (hr : l[0]? = some r) :
    ∀ a ∈ l, key r ≤ key a := by
  have at_ : ∀ (i : Nat) (a : α), l[i]? = some a → key r ≤ key a := by
    intro i
    induction i using Nat.strongRecOn with
    | ind i ih =>
      intro a ha
      by_cases hi : 0 < i
      · obtain ⟨p, hp⟩ := entry ((parent_lt hi).trans (entry_lt ha))
        exact (ih _ (parent_lt hi) p hp).trans (o i a p hi ha hp)
      · obtain rfl : i = 0 := by omega
        obtain rfl : r = a := Option.some.inj (hr.symm.trans ha)
        exact le_refl _
  intro a ha
  obtain ⟨i, hi⟩ := List.mem_iff_getElem?.mp ha
  exact at_ i a hi

end

end Sift
