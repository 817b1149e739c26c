import ChainSocket.Timer.Manager

/-!
# The timer heap keeps its back-pointers and its order

`Good` is what every operation keeps: the heap is ordered, and `heapIndex_` and the heap point at
each other. While one timer is taken out and put back, `Linked m (· = t)` says the same of all
the others. Above it, `Armed m t x` says that `t` will go off at `x`, and each operation has one
theorem that says what it does to that map.
-/

namespace ChainSocket

namespace TimerManager

variable {τ : Type} [DecidableEq τ]

/-- What the heap operations never write. -/
def core (m : TimerManager τ) (t : τ) : TimerType × Nat × Nat :=
  ((m.timers t).timerType, (m.timers t).interval, (m.timers t).expires)

@[simp] theorem setIndex_heap (m : TimerManager τ) (t : τ) (i : Option Nat) :
    (m.setIndex t i).heap = m.heap := rfl

@[simp] theorem modify_heap (m : TimerManager τ) (t : τ) (f : Timer → Timer) :
    (m.modify t f).heap = m.heap := rfl

theorem modify_other (m : TimerManager τ) {t u : τ} (f : Timer → Timer) (h : u ≠ t) :
    (m.modify t f).timers u = m.timers u := by
  simp [modify, Function.update_of_ne h]

@[simp] theorem modify_self (m : TimerManager τ) (t : τ) (f : Timer → Timer) :
    (m.modify t f).timers t = f (m.timers t) := by
  simp [modify]

@[simp] theorem setIndex_core (m : TimerManager τ) (t : τ) (i : Option Nat) :
    (m.setIndex t i).core = m.core := by
  funext u
  by_cases h : u = t
  · subst h; simp [core, setIndex]
  · simp [core, setIndex, modify_other m _ h]

theorem setIndex_index (m : TimerManager τ) (t u : τ) (i : Option Nat) :
    ((m.setIndex t i).timers u).heapIndex = if u = t then i else (m.timers u).heapIndex := by
  split
  · rename_i h; subst h; simp [setIndex]
  · rename_i h; simp [setIndex, modify_other m _ h]

@[simp] theorem pointBack_core (m : TimerManager τ) (i : Nat) : (m.pointBack i).core = m.core := by
  unfold pointBack; split
  · exact setIndex_core m _ _
  · rfl

@[simp] theorem swapHeap_core (m : TimerManager τ) (i j : Nat) :
    (m.swapHeap i j).core = m.core := by
  unfold swapHeap; rw [pointBack_core, pointBack_core]; rfl

theorem swapHeap_index {m : TimerManager τ} {i j : Nat} {a b : HeapEntry τ}
    (ha : m.heap[i]? = some a) (hb : m.heap[j]? = some b) (u : τ) :
    ((m.swapHeap i j).timers u).heapIndex =
      if u = a.timer then some j else if u = b.timer then some i
      else (m.timers u).heapIndex := by
  have at' := Sift.swap_getElem? (Sift.entry_lt ha) (Sift.entry_lt hb)
  have hi : (m.heap.swap i j)[i]? = some b := by
    rw [at']; by_cases h : i = j
    · subst h; simpa using hb
    · simp [h, hb]
  have hj : (m.heap.swap i j)[j]? = some a := by rw [at']; simp [ha]
  unfold swapHeap pointBack
  simp only [hi, setIndex_heap, hj, setIndex_index]

/-- Heap and back-pointers agree on every timer that is not `gone`, and no `gone` timer is in the
heap. -/
structure Linked (m : TimerManager τ) (gone : τ → Prop) : Prop where
  indexed : ∀ i e, m.heap[i]? = some e → ¬ gone e.timer ∧
    (m.timers e.timer).heapIndex = some i ∧ e.time = (m.core e.timer).2.2
  held : ∀ t i, ¬ gone t → (m.timers t).heapIndex = some i →
    ∃ e, m.heap[i]? = some e ∧ e.timer = t

omit [DecidableEq τ] in
theorem Linked.index_unique {m : TimerManager τ} {gone : τ → Prop} (h : Linked m gone) {i j : Nat}
    {a b : HeapEntry τ} (ha : m.heap[i]? = some a) (hb : m.heap[j]? = some b)
    (ht : a.timer = b.timer) : i = j := by
  have hi := (h.indexed i a ha).2.1
  have hj := (h.indexed j b hb).2.1
  rw [ht, hj] at hi
  exact (Option.some.inj hi).symm

theorem Linked.swap {m : TimerManager τ} {gone : τ → Prop} (h : Linked m gone) {i j : Nat}
    (hi : i < m.heap.length) (hj : j < m.heap.length) (hne : i ≠ j) :
    Linked (m.swapHeap i j) gone := by
  obtain ⟨a, ha⟩ := Sift.entry hi
  obtain ⟨b, hb⟩ := Sift.entry hj
  have hab : a.timer ≠ b.timer := fun e => hne (h.index_unique ha hb e)
  have at' := Sift.swap_getElem? hi hj
  constructor
  · intro k e he
    rw [swapHeap_heap, at'] at he
    rw [swapHeap_index ha hb, swapHeap_core]
    by_cases hkj : k = j
    · subst hkj
      obtain rfl : a = e := by simpa [ha] using he
      have := h.indexed i a ha
      exact ⟨this.1, by simp, this.2.2⟩
    · by_cases hki : k = i
      · subst hki
        obtain rfl : b = e := by simpa [hne, hb] using he
        have := h.indexed j b hb
        exact ⟨this.1, by simp [hab.symm], this.2.2⟩
      · have he' : m.heap[k]? = some e := by simpa [hkj, hki] using he
        have hea : e.timer ≠ a.timer := fun q => hki (h.index_unique he' ha q)
        have heb : e.timer ≠ b.timer := fun q => hkj (h.index_unique he' hb q)
        simpa [hea, heb] using h.indexed k e he'
  · intro t k ht hk
    rw [swapHeap_index ha hb] at hk
    rw [swapHeap_heap, at']
    by_cases hta : t = a.timer
    · obtain rfl : j = k := by simpa [hta] using hk
      exact ⟨a, by simp [ha], hta.symm⟩
    · by_cases htb : t = b.timer
      · obtain rfl : i = k := by subst htb; simpa [hta] using hk
        exact ⟨b, by simp [hne, hb], htb.symm⟩
      · simp only [hta, htb, ↓reduceIte] at hk
        obtain ⟨e, he, rfl⟩ := h.held t k ht hk
        have hki : k ≠ i := by
          rintro rfl; obtain rfl := Option.some.inj (ha.symm.trans he); exact hta rfl
        have hkj : k ≠ j := by
          rintro rfl; obtain rfl := Option.some.inj (hb.symm.trans he); exact htb rfl
        exact ⟨e, by simp [hki, hkj, he], rfl⟩

/-! ## The sifts -/

theorem upHeap_heap (m : TimerManager τ) (i : Nat) :
    (m.upHeap i).heap = Sift.siftUp HeapEntry.time m.heap i := by
  induction m, i using upHeap.induct with
  | case1 m i h ih => rw [upHeap, if_pos h, Sift.siftUp, Sift.parent, if_pos h, ih, swapHeap_heap]
  | case2 m i h => rw [upHeap, if_neg h, Sift.siftUp, Sift.parent, if_neg h]

theorem downHeap_heap (m : TimerManager τ) (i : Nat) :
    (m.downHeap i).heap = Sift.siftDown HeapEntry.time m.heap i := by
  induction m, i using downHeap.induct with
  | case1 m i h ih =>
    rw [downHeap, if_pos h, Sift.siftDown, ← minChild_eq, if_pos h, ih, swapHeap_heap]
  | case2 m i h => rw [downHeap, if_neg h, Sift.siftDown, ← minChild_eq, if_neg h]

@[simp] theorem upHeap_core (m : TimerManager τ) (i : Nat) : (m.upHeap i).core = m.core := by
  induction m, i using upHeap.induct with
  | case1 m i h ih => rw [upHeap, if_pos h, ih, swapHeap_core]
  | case2 m i h => rw [upHeap, if_neg h]

@[simp] theorem downHeap_core (m : TimerManager τ) (i : Nat) : (m.downHeap i).core = m.core := by
  induction m, i using downHeap.induct with
  | case1 m i h ih => rw [downHeap, if_pos h, ih, swapHeap_core]
  | case2 m i h => rw [downHeap, if_neg h]

theorem Linked.upHeap {m : TimerManager τ} {gone : τ → Prop} (h : Linked m gone) {i : Nat}
    (hi : i < m.heap.length) : Linked (m.upHeap i) gone := by
  induction m, i using upHeap.induct with
  | case1 m i hb ih =>
    rw [TimerManager.upHeap, if_pos hb]
    have hp : (i - 1) / 2 < i := by omega
    exact ih (h.swap hi (by omega) (by omega)) (by rw [swapHeap_heap, List.length_swap]; omega)
  | case2 m i hb => rwa [TimerManager.upHeap, if_neg hb]

theorem Linked.downHeap {m : TimerManager τ} {gone : τ → Prop} (h : Linked m gone) (i : Nat) :
    Linked (m.downHeap i) gone := by
  induction m, i using downHeap.induct with
  | case1 m i hb ih =>
    rw [TimerManager.downHeap, if_pos hb]
    have hm := (Sift.minChild_spec HeapEntry.time hb.1).1
    have hgt := Sift.minChild_gt HeapEntry.time m.heap i
    exact ih (h.swap (by omega) hm (Nat.ne_of_lt hgt))
  | case2 m i hb => rwa [TimerManager.downHeap, if_neg hb]

/-! ## Adding and removing -/

/-- `t` will go off at `x`. -/
def Armed (m : TimerManager τ) (t : τ) (x : Nat) : Prop := ⟨x, t⟩ ∈ m.heap

structure Good (m : TimerManager τ) : Prop where
  ordered : Sift.Ordered HeapEntry.time m.heap
  linked : Linked m fun _ => False

/-- Everything but `t` is in place: the state between `RemoveTimer` and what follows it. -/
structure Apart (m : TimerManager τ) (t : τ) : Prop where
  ordered : Sift.Ordered HeapEntry.time m.heap
  linked : Linked m (· = t)

omit [DecidableEq τ] in
theorem Linked.popBack {m : TimerManager τ} (h : Linked m fun _ => False) {e : HeapEntry τ}
    (he : m.heap[m.heap.length - 1]? = some e) : Linked m.popBack (· = e.timer) := by
  have hpos := Sift.entry_lt he
  constructor
  · intro i a ha
    simp only [TimerManager.popBack, List.getElem?_dropLast] at ha
    split at ha
    · rename_i hi
      refine ⟨fun q => ?_, (h.indexed i a ha).2⟩
      have := h.index_unique ha he q
      omega
    · cases ha
  · intro t i ht hi
    obtain ⟨a, ha, rfl⟩ := h.held t i id hi
    refine ⟨a, ?_, rfl⟩
    have hlt := Sift.entry_lt ha
    have : i ≠ m.heap.length - 1 := by
      rintro rfl; exact ht (by rw [Option.some.inj (ha.symm.trans he)])
    simp only [TimerManager.popBack, List.getElem?_dropLast]
    rw [if_pos (by omega), ha]

@[simp] theorem settle_core (m : TimerManager τ) (i : Nat) : (m.settle i).core = m.core := by
  unfold settle; split
  · exact upHeap_core m i
  · exact downHeap_core m i

theorem settle_perm (m : TimerManager τ) (i : Nat) : (m.settle i).heap.Perm m.heap := by
  unfold settle; split
  · rw [upHeap_heap]; exact Sift.siftUp_perm _ _
  · rw [downHeap_heap]; exact Sift.siftDown_perm _ _

theorem Linked.settle {m : TimerManager τ} {gone : τ → Prop} (h : Linked m gone) {i : Nat}
    (hi : i < m.heap.length) : Linked (m.settle i) gone := by
  unfold TimerManager.settle; split
  · exact h.upHeap hi
  · exact h.downHeap i

theorem settle_ordered {m : TimerManager τ} {l : List (HeapEntry τ)} {i : Nat}
    (o : Sift.Ordered HeapEntry.time l) (hi : i + 1 < l.length) (hm : m.heap = Sift.fill l i) :
    Sift.Ordered HeapEntry.time (m.settle i).heap := by
  unfold settle
  split
  · rename_i hup
    rw [upHeap_heap, hm]
    rw [hm] at hup
    refine Sift.siftUp_ordered ?_ (Sift.fill_upOrder o hi hup.1 hup.2)
    simp only [Sift.fill, List.length_dropLast, List.length_swap]; omega
  · rename_i hdown
    rw [downHeap_heap, hm]
    rw [hm] at hdown
    refine Sift.siftDown_ordered (Sift.fill_downOrder o hi fun h0 => ?_)
    simpa [h0, Sift.parent] using hdown

/-- `RemoveTimer` of an armed timer takes its entry out and leaves the others in place. -/
theorem removeTimer_apart {m : TimerManager τ} (g : Good m) {t : τ} {i : Nat}
    (ht : (m.timers t).heapIndex = some i) :
    Apart (m.removeTimer t) t ∧ (m.removeTimer t).core = m.core ∧
      ∃ e : HeapEntry τ, e.timer = t ∧ (e :: (m.removeTimer t).heap).Perm m.heap := by
  obtain ⟨e, he, rfl⟩ := g.linked.held t i id ht
  have hi := Sift.entry_lt he
  have hperm : (e :: Sift.fill m.heap i).Perm m.heap := Sift.fill_cons he
  simp only [removeTimer, ht, hi, ↓reduceIte]
  by_cases hlast : i = m.heap.length - 1
  · simp only [hlast, ↓reduceIte]
    refine ⟨⟨Sift.dropLast_ordered g.ordered, g.linked.popBack (hlast ▸ he)⟩, rfl, e, rfl, ?_⟩
    rwa [Sift.fill, hlast, List.swap_self] at hperm
  · simp only [hlast, ↓reduceIte]
    have hend : (m.swapHeap i (m.heap.length - 1)).heap[
        (m.swapHeap i (m.heap.length - 1)).heap.length - 1]? = some e := by
      rw [swapHeap_heap, List.length_swap, Sift.swap_getElem? hi (by omega), if_pos rfl, he]
    have hl := (g.linked.swap hi (j := m.heap.length - 1) (by omega) hlast).popBack hend
    have hheap : (m.swapHeap i (m.heap.length - 1)).popBack.heap = Sift.fill m.heap i := by
      simp [popBack, Sift.fill, swapHeap_heap]
    have hif : i < (m.swapHeap i (m.heap.length - 1)).popBack.heap.length := by
      rw [hheap]; simp only [Sift.fill, List.length_dropLast, List.length_swap]; omega
    refine ⟨⟨settle_ordered g.ordered (by omega) hheap, hl.settle hif⟩, ?_, e, rfl, ?_⟩
    · rw [settle_core]; exact swapHeap_core m _ _
    · exact ((settle_perm _ i).cons e).trans (hheap ▸ hperm)

theorem Apart.modify {m : TimerManager τ} {t : τ} (a : Apart m t) (f : Timer → Timer) :
    Apart (m.modify t f) t := by
  refine ⟨a.ordered, ?_, ?_⟩
  · intro i e he
    have h := a.linked.indexed i e he
    refine ⟨h.1, ?_⟩
    simpa only [core, modify_other m f h.1] using h.2
  · intro u i hu hi
    rw [modify_other m f hu] at hi
    exact a.linked.held u i hu hi

/-- A timer set aside may be given -1: then nothing is out of place. -/
theorem Apart.forget {m : TimerManager τ} {t : τ} (a : Apart m t) : Good (m.setIndex t none) := by
  refine ⟨a.ordered, ?_, ?_⟩
  · intro i e he
    have h := a.linked.indexed i e he
    exact ⟨id, by rw [setIndex_index, if_neg h.1]; exact h.2.1, by rw [setIndex_core]; exact h.2.2⟩
  · intro u i _ hi
    rw [setIndex_index] at hi
    split at hi
    · cases hi
    · rename_i hu; exact a.linked.held u i hu hi

omit [DecidableEq τ] in
theorem Good.apart {m : TimerManager τ} (g : Good m) {t : τ}
    (ht : (m.timers t).heapIndex = none) : Apart m t := by
  refine ⟨g.ordered, ?_, fun u i _ hi => g.linked.held u i id hi⟩
  intro i e he
  have h := g.linked.indexed i e he
  refine ⟨fun q => ?_, h.2⟩
  rw [q, ht] at h
  exact Option.some_ne_none _ h.2.1.symm

/-- `AddTimer` puts a timer that was set aside back, armed for its `expires_`. -/
theorem addTimer_good {m : TimerManager τ} {t : τ} (a : Apart m t) :
    Good (m.addTimer t) ∧ (m.addTimer t).core = m.core ∧
      (m.addTimer t).heap.Perm (⟨(m.core t).2.2, t⟩ :: m.heap) := by
  unfold addTimer
  have hx : ((m.setIndex t (some m.heap.length)).timers t).expires = (m.core t).2.2 := by
    simp [setIndex, core]
  simp only [setIndex_heap, hx]
  generalize hpd : (⟨m.heap ++ [⟨(m.core t).2.2, t⟩],
    (m.setIndex t (some m.heap.length)).timers⟩ : TimerManager τ) = pushed
  have hheap : pushed.heap = m.heap ++ [⟨(m.core t).2.2, t⟩] := by rw [← hpd]
  have hcore : pushed.core = m.core := by rw [← hpd]; exact setIndex_core m t _
  have hindex : ∀ u, (pushed.timers u).heapIndex =
      if u = t then some m.heap.length else (m.timers u).heapIndex := by
    intro u; rw [← hpd]; exact setIndex_index m t u _
  have hlen : m.heap.length < pushed.heap.length := by rw [hheap]; simp
  have hl : Linked pushed fun _ => False := by
    constructor
    · intro i e he
      refine ⟨id, ?_⟩
      rw [hindex, hcore]
      by_cases hi : i = m.heap.length
      · subst hi
        rw [hheap, List.getElem?_concat_length] at he
        obtain rfl := Option.some.inj he
        simp
      · rw [hheap] at he
        have hlt := Sift.entry_lt he
        simp only [List.length_append, List.length_singleton] at hlt
        rw [List.getElem?_append_left (by omega)] at he
        have h := a.linked.indexed i e he
        rw [if_neg h.1]
        exact h.2
    · intro u i _ hi
      rw [hindex] at hi
      rw [hheap]
      by_cases hu : u = t
      · obtain rfl : m.heap.length = i := by simpa [hu] using hi
        exact ⟨_, List.getElem?_concat_length, hu.symm⟩
      · simp only [hu, ↓reduceIte] at hi
        obtain ⟨e, he, rfl⟩ := a.linked.held u i hu hi
        exact ⟨e, by rw [List.getElem?_append_left (Sift.entry_lt he)]; exact he, rfl⟩
  refine ⟨⟨?_, hl.upHeap hlen⟩, by rw [upHeap_core, hcore], ?_⟩
  · rw [upHeap_heap]
    exact Sift.siftUp_ordered hlen (hheap ▸ Sift.append_upOrder a.ordered _)
  · rw [upHeap_heap]
    apply (Sift.siftUp_perm _ _).trans
    rw [hheap]
    exact List.perm_append_singleton _ _

end TimerManager

end ChainSocket
