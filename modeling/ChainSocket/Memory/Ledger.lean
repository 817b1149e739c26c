import ChainSocket.Buffer
import ChainSocket.Lib.Log
import Mathlib.Logic.Function.Basic
import Mathlib.Logic.Relation

/-!
# The memory of sessions

The pointers of a `Session`, and of the `IocpData` around it, with a ledger of the blocks that have
been allocated for each session and of what has been done with them.

* `Balanced`: every closed session has given back what was allocated for it;
* `Books`: what the ledger has where nothing is freed but what the session's pointers hold.
-/

namespace ChainSocket.Memory

open Relation (ReflTransGen)
open Log (InOrder)

/-- The pointers of a session; `self` is the one in `sessions`. -/
inductive Pointer where
  | self | readBuffer | writeBuffer | userData | onUserDataDestory | io_ctx_r | io_ctx_s
  deriving DecidableEq

/-- The pointers to what is allocated along with the session. -/
def Pointer.block : Pointer → Bool
  | .self | .userData | .onUserDataDestory => false
  | .readBuffer | .writeBuffer | .io_ctx_r | .io_ctx_s => true

/-- A session is known by its birth, and a block by its number. -/
inductive Entry where
  | malloc (owner block : Nat)
  | store (owner : Nat) (field : Pointer) (value : Option Nat)
  | free (owner : Nat) (field : Pointer) (value : Option Nat)
  | destroy (owner : Nat) (callback data : Option Nat)
  | closed (owner : Nat)
  deriving DecidableEq

namespace Entry

def frees (block : Nat) : Entry → Bool
  | .free _ _ value => value = some block
  | _ => false

def destroys (owner : Nat) : Entry → Bool
  | .destroy o _ _ => o = owner
  | _ => false

/-- What `free` and the callback are applied to has been stored in the session. -/
def Stored (before : List Entry) : Entry → Prop
  | .free owner field value => .store owner field value ∈ before
  | .destroy owner callback data =>
    .store owner .onUserDataDestory callback ∈ before ∧ .store owner .userData data ∈ before
  | _ => True

theorem Stored.mono {before : List Entry} (after : List Entry) {e : Entry} (h : e.Stored before) :
    e.Stored (before ++ after) := by
  cases e with
  | free owner field value => exact List.mem_append_left _ h
  | destroy owner callback data =>
    exact ⟨List.mem_append_left _ h.1, List.mem_append_left _ h.2⟩
  | malloc | store | closed => trivial

end Entry

/-- The life cycle of the sessions is balanced: every block of a closed session has been freed
once, nothing else has been freed, and its callback has been called once. -/
structure Balanced (log : List Entry) : Prop where
  freed : ∀ owner block, .closed owner ∈ log → .malloc owner block ∈ log →
    log.countP (Entry.frees block) = 1
  stored : InOrder Entry.Stored log
  destroyed : ∀ owner callback, .closed owner ∈ log →
    .store owner .onUserDataDestory (some callback) ∈ log →
      log.countP (Entry.destroys owner) = 1

structure Heap where
  /-- How many blocks have been allocated. -/
  next : Nat
  /-- What each session's pointers hold. -/
  objects : Nat → Pointer → Option Nat
  log : List Entry

namespace Heap

def empty : Heap := { next := 0, objects := fun _ _ => none, log := [] }

def record (h : Heap) (e : Entry) : Heap := { h with log := h.log ++ [e] }

def store (h : Heap) (owner : Nat) (field : Pointer) (value : Option Nat) : Heap :=
  { h with
    objects := Function.update h.objects owner (Function.update (h.objects owner) field value)
    log := h.log ++ [.store owner field value] }

/-- `field = xmalloc(..)`, where there is memory. -/
def xmalloc (h : Heap) (owner : Nat) (field : Pointer) : Heap :=
  ({ h with next := h.next + 1, log := h.log ++ [.malloc owner h.next] } : Heap).store owner field
    (some h.next)

/-- `xfree(field)`. -/
def xfree (h : Heap) (owner : Nat) (field : Pointer) : Heap :=
  h.record (.free owner field (h.objects owner field))

/-- The memory of a new session: what its pointers hold has been left there. -/
def create (h : Heap) (owner : Nat) (garbage : Pointer → Option Nat) : Heap :=
  ({ h with objects := Function.update h.objects owner garbage } : Heap).xmalloc owner .self

/-! ## Buffer.cpp -/

/-- `MessageBuffer::init`. -/
def bufferInit (h : Heap) (owner : Nat) (buff : Pointer) (mem : Alloc) : Heap :=
  if mem.ok then h.xmalloc owner buff else h.store owner buff none

/-- `MessageBuffer::destroy`. -/
def bufferDestroy (h : Heap) (owner : Nat) (buff : Pointer) : Heap :=
  (h.xfree owner buff).store owner buff none

/-- `buff = realloc(buff, ..)`: where there is no memory, the old block stays. -/
def realloc (h : Heap) (owner : Nat) (buff : Pointer) (mem : Alloc) : Heap :=
  if mem.ok then (h.xfree owner buff).xmalloc owner buff else h.store owner buff none

/-! ## Buffer.h -/

/-- `Session::init`. -/
def init (h : Heap) (owner : Nat) (mem : Alloc) : Heap :=
  let h := h.store owner .userData none
  let h := h.store owner .onUserDataDestory none
  let h := h.bufferInit owner .readBuffer mem
  h.bufferInit owner .writeBuffer mem

/-- `onUserDataDestory(&userData)`, where both are set. -/
def destroyUserData (h : Heap) (owner : Nat) : Heap :=
  if h.objects owner .userData ≠ none ∧ h.objects owner .onUserDataDestory ≠ none then
    h.record (.destroy owner (h.objects owner .onUserDataDestory) (h.objects owner .userData))
  else h

/-- `Session::destroy`. -/
def destroy (h : Heap) (owner : Nat) : Heap :=
  let h := h.destroyUserData owner
  let h := h.bufferDestroy owner .readBuffer
  let h := h.bufferDestroy owner .writeBuffer
  let h := h.store owner .userData none
  h.store owner .onUserDataDestory none

/-- `Session::reset`. -/
def reset (h : Heap) (owner : Nat) (mem : Alloc) : Heap := (h.destroy owner).init owner mem

/-! ## IOCPPoller.cpp -/

/-- `IocpData::init`. -/
def iocpInit (h : Heap) (owner : Nat) (mem : Alloc) : Heap :=
  let h := h.init owner mem
  let h := h.xmalloc owner .io_ctx_r
  h.xmalloc owner .io_ctx_s

/-- `IocpData::destroy`. -/
def iocpDestroy (h : Heap) (owner : Nat) : Heap :=
  let h := h.destroy owner
  let h := h.xfree owner .io_ctx_r
  h.xfree owner .io_ctx_s

/-- `memset(&data, 0, sizeof(IocpData))`. -/
def clear (h : Heap) (owner : Nat) : Heap :=
  let h := h.store owner .writeBuffer none
  let h := h.store owner .readBuffer none
  let h := h.store owner .userData none
  let h := h.store owner .onUserDataDestory none
  let h := h.store owner .io_ctx_r none
  h.store owner .io_ctx_s none

@[simp] theorem objects_store (h : Heap) (owner o : Nat) (field f : Pointer)
    (value : Option Nat) : (h.store owner field value).objects o f =
      if o = owner ∧ f = field then value else h.objects o f := by
  simp only [store, Function.update_apply]
  by_cases ho : o = owner
  · simp [ho, Function.update_apply]
  · simp [ho]

@[simp] theorem objects_xmalloc (h : Heap) (owner o : Nat) (field f : Pointer) :
    (h.xmalloc owner field).objects o f =
      if o = owner ∧ f = field then some h.next else h.objects o f := objects_store ..

@[simp] theorem objects_record (h : Heap) (e : Entry) : (h.record e).objects = h.objects := rfl

@[simp] theorem objects_xfree (h : Heap) (owner : Nat) (field : Pointer) :
    (h.xfree owner field).objects = h.objects := rfl

/-! ## What the functions do to the ledger -/

/-- What is stored in a session: a block as it is allocated, or NULL, or what is the user's. -/
inductive Write (owner : Nat) (h : Heap) : Heap → Prop
  | null (field : Pointer) (block : field.block = true) : Write owner h (h.store owner field none)
  | userData (ptr : Option Nat) : Write owner h (h.store owner .userData ptr)
  | onUserDataDestory (callback : Option Nat) :
      Write owner h (h.store owner .onUserDataDestory callback)
  | xmalloc (field : Pointer) (block : field.block = true) : Write owner h (h.xmalloc owner field)

inductive Move (owner : Nat) (h : Heap) : Heap → Prop
  | write {h' : Heap} (write : Write owner h h') : Move owner h h'
  | xfree (field : Pointer) (block : field.block = true) : Move owner h (h.xfree owner field)
  | destroy : Move owner h
      (h.record (.destroy owner (h.objects owner .onUserDataDestory) (h.objects owner .userData)))

abbrev Writes (owner : Nat) := ReflTransGen (Write owner)
abbrev Moves (owner : Nat) := ReflTransGen (Move owner)

theorem Writes.moves {owner : Nat} {h h' : Heap} (hw : Writes owner h h') : Moves owner h h' :=
  ReflTransGen.mono (fun _ _ => .write) h h' hw

section

variable (h : Heap) (owner : Nat) (mem : Alloc)

theorem bufferInit_write (buff : Pointer) (block : buff.block = true) :
    Write owner h (h.bufferInit owner buff mem) := by
  unfold bufferInit
  split_ifs
  · exact .xmalloc buff block
  · exact .null buff block

theorem init_writes : Writes owner h (h.init owner mem) := by
  have huser : Writes owner h
      ((h.store owner .userData none).store owner .onUserDataDestory none) :=
    .tail (.single (.userData none)) (.onUserDataDestory none)
  exact (huser.tail (bufferInit_write _ owner mem .readBuffer rfl)).tail
    (bufferInit_write _ owner mem .writeBuffer rfl)

theorem iocpInit_writes : Writes owner h (h.iocpInit owner mem) :=
  ((init_writes h owner mem).tail (.xmalloc .io_ctx_r rfl)).tail (.xmalloc .io_ctx_s rfl)

theorem clear_writes : Writes owner h (h.clear owner) := by
  have hbuffers : Writes owner h ((h.store owner .writeBuffer none).store owner .readBuffer none) :=
    .tail (.single (.null .writeBuffer rfl)) (.null .readBuffer rfl)
  have huser := (hbuffers.tail (.userData none)).tail (.onUserDataDestory none)
  exact (huser.tail (.null .io_ctx_r rfl)).tail (.null .io_ctx_s rfl)

theorem bufferDestroy_moves (buff : Pointer) (block : buff.block = true) :
    Moves owner h (h.bufferDestroy owner buff) :=
  .tail (.single (.xfree buff block)) (.write (.null buff block))

theorem realloc_moves (buff : Pointer) (block : buff.block = true) :
    Moves owner h (h.realloc owner buff mem) := by
  unfold realloc
  split_ifs
  · exact .tail (.single (.xfree buff block)) (.write (.xmalloc buff block))
  · exact .single (.write (.null buff block))

theorem destroyUserData_moves : Moves owner h (h.destroyUserData owner) := by
  unfold destroyUserData
  split_ifs
  · exact .single .destroy
  · exact .refl

/-- What `destroy` does behind the first `xfree`. -/
theorem destroy_rest :
    Moves owner ((h.destroyUserData owner).xfree owner .readBuffer) (h.destroy owner) := by
  have hread : Moves owner ((h.destroyUserData owner).xfree owner .readBuffer)
      ((h.destroyUserData owner).bufferDestroy owner .readBuffer) :=
    .single (.write (.null .readBuffer rfl))
  have hwrite := hread.trans (bufferDestroy_moves _ owner .writeBuffer rfl)
  exact (hwrite.tail (.write (.userData none))).tail (.write (.onUserDataDestory none))

theorem destroy_moves : Moves owner h (h.destroy owner) :=
  ((destroyUserData_moves h owner).tail (.xfree .readBuffer rfl)).trans (destroy_rest h owner)

theorem reset_moves : Moves owner h (h.reset owner mem) :=
  (destroy_moves h owner).trans (init_writes _ owner mem).moves

theorem iocpDestroy_moves : Moves owner h (h.iocpDestroy owner) :=
  ((destroy_moves h owner).tail (.xfree .io_ctx_r rfl)).tail (.xfree .io_ctx_s rfl)

end

/-! ## The ledger grows -/

theorem log_store (h : Heap) (owner : Nat) (field : Pointer) (value : Option Nat) :
    (h.store owner field value).log = h.log ++ [.store owner field value] := rfl

theorem log_xmalloc (h : Heap) (owner : Nat) (field : Pointer) :
    (h.xmalloc owner field).log =
      h.log ++ [.malloc owner h.next, .store owner field (some h.next)] := by
  simp [xmalloc, store]

theorem Move.grows {owner : Nat} {h h' : Heap} (hm : Move owner h h') : h.log <+: h'.log := by
  cases hm with
  | write hw =>
    cases hw with
    | null | userData | onUserDataDestory => exact List.prefix_append ..
    | xmalloc => exact log_xmalloc .. ▸ List.prefix_append ..
  | xfree | destroy => exact List.prefix_append ..

theorem Moves.grows {owner : Nat} {h h' : Heap} (hm : Moves owner h h') : h.log <+: h'.log := by
  induction hm with
  | refl => exact List.prefix_rfl
  | tail _ hlast ih => exact ih.trans hlast.grows

theorem create_grows (h : Heap) (owner : Nat) (garbage : Pointer → Option Nat) :
    h.log <+: (h.create owner garbage).log :=
  ⟨_, (log_xmalloc { h with objects := Function.update h.objects owner garbage } owner .self).symm⟩

theorem Move.closed_iff {owner o : Nat} {h h' : Heap} (hm : Move owner h h') :
    .closed o ∈ h'.log ↔ .closed o ∈ h.log := by
  cases hm with
  | write hw =>
    cases hw with
    | null | userData | onUserDataDestory => simp [log_store]
    | xmalloc => simp [log_xmalloc]
  | xfree | destroy => simp [Heap.xfree, record]

theorem Moves.closed_iff {owner o : Nat} {h h' : Heap} (hm : Moves owner h h') :
    .closed o ∈ h'.log ↔ .closed o ∈ h.log := by
  induction hm with
  | refl => rfl
  | tail _ hlast ih => exact hlast.closed_iff.trans ih

theorem create_closed_iff {h : Heap} {owner o : Nat} {garbage : Pointer → Option Nat} :
    .closed o ∈ (h.create owner garbage).log ↔ .closed o ∈ h.log := by
  simp [create, log_xmalloc]

/-! ## What the pointers hold -/

/-- The pointers of the other sessions. -/
theorem Move.frame {owner o : Nat} {h h' : Heap} (hm : Move owner h h') (hne : o ≠ owner) :
    h'.objects o = h.objects o := by
  ext f
  cases hm with
  | write hw => cases hw <;> simp [hne]
  | xfree | destroy => simp

theorem Moves.frame {owner o : Nat} {h h' : Heap} (hm : Moves owner h h') (hne : o ≠ owner) :
    h'.objects o = h.objects o := by
  induction hm with
  | refl => rfl
  | tail _ hlast ih => exact (hlast.frame hne).trans ih

theorem create_frame {h : Heap} {owner o : Nat} (hne : o ≠ owner)
    (garbage : Pointer → Option Nat) : (h.create owner garbage).objects o = h.objects o := by
  ext f
  simp [create, hne]

/-- A buffer has a block where there is memory for it. -/
theorem isSome_bufferInit (h : Heap) (owner : Nat) (buff : Pointer) (mem : Alloc) :
    ((h.bufferInit owner buff mem).objects owner buff).isSome = mem.ok := by
  unfold bufferInit
  cases hmem : mem.ok <;> simp

theorem isSome_init (h : Heap) (owner : Nat) (mem : Alloc) {buff : Pointer}
    (hbuff : buff = .readBuffer ∨ buff = .writeBuffer) :
    ((h.init owner mem).objects owner buff).isSome = mem.ok := by
  rcases hbuff with rfl | rfl
  · unfold init bufferInit
    cases hmem : mem.ok <;> simp
  · exact isSome_bufferInit ..

theorem objects_realloc_ne {h : Heap} {owner : Nat} {buff field : Pointer} {mem : Alloc}
    (hne : field ≠ buff) :
    (h.realloc owner buff mem).objects owner field = h.objects owner field := by
  unfold realloc
  cases mem.ok <;> simp [hne]

theorem isSome_realloc (h : Heap) (owner : Nat) (buff : Pointer) (mem : Alloc) :
    ((h.realloc owner buff mem).objects owner buff).isSome = mem.ok := by
  unfold realloc
  cases hmem : mem.ok <;> simp

/-- What the pointer holds has been stored in it. -/
def Known (h : Heap) (owner : Nat) (field : Pointer) : Prop :=
  .store owner field (h.objects owner field) ∈ h.log

theorem known_store_self (h : Heap) (owner : Nat) (field : Pointer) (value : Option Nat) :
    (h.store owner field value).Known owner field := by
  simp [Known, store]

theorem Known.store {h : Heap} {owner : Nat} {field : Pointer} (hk : h.Known owner field)
    (o : Nat) (f : Pointer) (value : Option Nat) : (h.store o f value).Known owner field := by
  by_cases hsame : owner = o ∧ field = f
  · obtain ⟨rfl, rfl⟩ := hsame
    exact known_store_self ..
  · simp [Known, hsame, log_store, List.mem_append_left _ hk]

theorem Known.record {h : Heap} {owner : Nat} {field : Pointer} (hk : h.Known owner field)
    (e : Entry) : (h.record e).Known owner field := List.mem_append_left _ hk

theorem Known.xmalloc {h : Heap} {owner : Nat} {field : Pointer} (hk : h.Known owner field)
    (o : Nat) (f : Pointer) : (h.xmalloc o f).Known owner field :=
  Known.store (h := { h with next := h.next + 1, log := h.log ++ [.malloc o h.next] })
    (List.mem_append_left _ hk) o f _

theorem Write.known {o owner : Nat} {field : Pointer} {h h' : Heap} (hw : Write o h h')
    (hk : h.Known owner field) : h'.Known owner field := by
  cases hw with
  | null | userData | onUserDataDestory => exact hk.store ..
  | xmalloc => exact hk.xmalloc ..

theorem Move.known {o owner : Nat} {field : Pointer} {h h' : Heap} (hm : Move o h h')
    (hk : h.Known owner field) : h'.Known owner field := by
  cases hm with
  | write hw => exact hw.known hk
  | xfree | destroy => exact hk.record _

theorem Moves.known {o owner : Nat} {field : Pointer} {h h' : Heap} (hm : Moves o h h')
    (hk : h.Known owner field) : h'.Known owner field := by
  induction hm with
  | refl => exact hk
  | tail _ hlast ih => exact hlast.known ih

theorem Known.create {h : Heap} {o : Nat} {field : Pointer} (hk : h.Known o field) {owner : Nat}
    (hne : o ≠ owner) (garbage : Pointer → Option Nat) :
    (h.create owner garbage).Known o field := by
  apply Known.xmalloc
  simpa [Known, Function.update_of_ne hne] using hk

theorem known_xmalloc_self (h : Heap) (owner : Nat) (field : Pointer) :
    (h.xmalloc owner field).Known owner field := known_store_self ..

theorem known_bufferInit_self (h : Heap) (owner : Nat) (buff : Pointer) (mem : Alloc) :
    (h.bufferInit owner buff mem).Known owner buff := by
  unfold bufferInit
  split_ifs
  · exact known_xmalloc_self ..
  · exact known_store_self ..

/-- `init` stores something in every pointer. -/
theorem iocpInit_known {h : Heap} {owner : Nat} (mem : Alloc) (hself : h.Known owner .self)
    (field : Pointer) : (h.iocpInit owner mem).Known owner field := by
  have hread (g : Heap) : Write owner g (g.bufferInit owner .readBuffer mem) :=
    bufferInit_write g owner mem .readBuffer rfl
  have hwrite (g : Heap) : Write owner g (g.bufferInit owner .writeBuffer mem) :=
    bufferInit_write g owner mem .writeBuffer rfl
  cases field with
  | self => exact (iocpInit_writes h owner mem).moves.known hself
  | userData =>
    have huser := (known_store_self h owner .userData none).store owner .onUserDataDestory none
    exact (((hwrite _).known ((hread _).known huser)).xmalloc ..).xmalloc ..
  | onUserDataDestory =>
    have hcallback := known_store_self (h.store owner .userData none) owner .onUserDataDestory none
    exact (((hwrite _).known ((hread _).known hcallback)).xmalloc ..).xmalloc ..
  | readBuffer => exact (((hwrite _).known (known_bufferInit_self ..)).xmalloc ..).xmalloc ..
  | writeBuffer => exact ((known_bufferInit_self ..).xmalloc ..).xmalloc ..
  | io_ctx_r => exact (known_xmalloc_self ..).xmalloc ..
  | io_ctx_s => exact known_xmalloc_self ..

/-! ## The books -/

/-- What is freed are blocks, and only where a pointer to them has been stored; a session's own
memory is not among them. -/
structure Books (h : Heap) : Prop where
  stored : InOrder Entry.Stored h.log
  freed : ∀ owner field value, .free owner field value ∈ h.log → field.block = true
  fresh : ∀ owner field block, field.block = true ∨ field = .self →
    .store owner field (some block) ∈ h.log → block < h.next
  apart : ∀ owner owner' field block, field.block = true →
    .store owner field (some block) ∈ h.log → .store owner' .self (some block) ∉ h.log

theorem empty_books : empty.Books := by
  constructor <;> simp [empty, InOrder.nil]

/-- One more entry. -/
theorem Books.entry {h h' : Heap} (hb : h.Books) (e : Entry) (hlog : h'.log = h.log ++ [e])
    (hnext : h.next ≤ h'.next) (hstored : e.Stored h.log)
    (hfreed : ∀ owner field value, e = .free owner field value → field.block = true)
    (hfresh : ∀ owner field block, field.block = true ∨ field = .self →
      e = .store owner field (some block) → block = h.next ∧ block < h'.next) : h'.Books := by
  have hmem : ∀ d, d ∈ h'.log ↔ d ∈ h.log ∨ e = d := by simp [hlog, eq_comm]
  constructor
  · exact hlog ▸ hb.stored.concat hstored
  · intro owner field value hin
    rcases (hmem _).1 hin with hold | hnew
    · exact hb.freed owner field value hold
    · exact hfreed owner field value hnew
  · intro owner field block hfield hin
    rcases (hmem _).1 hin with hold | hnew
    · exact Nat.lt_of_lt_of_le (hb.fresh owner field block hfield hold) hnext
    · exact (hfresh owner field block hfield hnew).2
  · intro owner owner' field block hfield hin hself
    rcases (hmem _).1 hin with hold | hnew <;> rcases (hmem _).1 hself with hold' | hnew'
    · exact hb.apart owner owner' field block hfield hold hold'
    · have hlt := hb.fresh owner field block (.inl hfield) hold
      have heq := (hfresh owner' .self block (.inr rfl) hnew').1
      omega
    · have hlt := hb.fresh owner' .self block (.inr rfl) hold'
      have heq := (hfresh owner field block (.inl hfield) hnew).1
      omega
    · cases hnew.symm.trans hnew'
      cases hfield

theorem Books.xmalloc {h : Heap} (hb : h.Books) (owner : Nat) (field : Pointer) :
    (h.xmalloc owner field).Books := by
  have hmalloc : (h.record (.malloc owner h.next)).Books :=
    hb.entry (.malloc owner h.next) rfl (Nat.le_refl _) trivial nofun nofun
  apply hmalloc.entry (.store owner field (some h.next)) rfl (Nat.le_succ _) trivial nofun
  intro o f block _ heq
  cases heq
  exact ⟨rfl, Nat.lt_succ_self _⟩

/-- A pointer that is not to a block can hold anything. -/
theorem Books.store {h : Heap} (hb : h.Books) (owner : Nat) (field : Pointer) (value : Option Nat)
    (hvalue : value = none ∨ field.block = false ∧ field ≠ .self) :
    (h.store owner field value).Books := by
  refine hb.entry (.store owner field value) rfl (Nat.le_refl _) trivial nofun ?_
  intro o f block hfield heq
  cases heq
  simp_all

theorem Write.books {owner : Nat} {h h' : Heap} (hw : Write owner h h') (hb : h.Books) :
    h'.Books := by
  cases hw with
  | null field => exact hb.store owner field none (.inl rfl)
  | userData ptr => exact hb.store owner .userData ptr (.inr ⟨rfl, nofun⟩)
  | onUserDataDestory callback =>
    exact hb.store owner .onUserDataDestory callback (.inr ⟨rfl, nofun⟩)
  | xmalloc field => exact hb.xmalloc owner field

theorem Writes.books {owner : Nat} {h h' : Heap} (hw : Writes owner h h') (hb : h.Books) :
    h'.Books := by
  induction hw with
  | refl => exact hb
  | tail _ hlast ih => exact hlast.books ih

theorem Move.books {owner : Nat} {h h' : Heap} (hm : Move owner h h')
    (hk : ∀ field, h.Known owner field) (hb : h.Books) : h'.Books := by
  cases hm with
  | write hw => exact hw.books hb
  | xfree field block =>
    have hfreed : ∀ o f value, Entry.free owner field (h.objects owner field) = .free o f value →
        f.block = true := by
      intro o f value heq
      cases heq
      exact block
    exact hb.entry _ rfl (Nat.le_refl _) (hk field) hfreed nofun
  | destroy =>
    exact hb.entry (.destroy owner _ _) rfl (Nat.le_refl _) ⟨hk _, hk _⟩ nofun nofun

theorem Moves.books {owner : Nat} {h h' : Heap} (hm : Moves owner h h')
    (hk : ∀ field, h.Known owner field) (hb : h.Books) : h'.Books := by
  induction hm with
  | refl => exact hb
  | tail hinit hlast ih => exact hlast.books (fun field => Moves.known hinit (hk field)) ih

theorem Books.create {h : Heap} (hb : h.Books) (owner : Nat) (garbage : Pointer → Option Nat) :
    (h.create owner garbage).Books :=
  Books.xmalloc (h := { h with objects := Function.update h.objects owner garbage })
    ⟨hb.stored, hb.freed, hb.fresh, hb.apart⟩ owner .self

theorem Books.close {h : Heap} (hb : h.Books) (owner : Nat) : (h.record (.closed owner)).Books :=
  hb.entry (.closed owner) rfl (Nat.le_refl _) trivial nofun nofun

/-- A session's memory has been allocated, and `sessions` has had the pointer to it. -/
def Created (h : Heap) (owner : Nat) : Prop :=
  ∃ block, .malloc owner block ∈ h.log ∧ .store owner .self (some block) ∈ h.log

theorem Created.grows {h h' : Heap} {owner : Nat} (hc : h.Created owner) (hlog : h.log <+: h'.log) :
    h'.Created owner := by
  obtain ⟨block, hmalloc, hself⟩ := hc
  exact ⟨block, hlog.subset hmalloc, hlog.subset hself⟩

theorem create_created (h : Heap) (owner : Nat) (garbage : Pointer → Option Nat) :
    (h.create owner garbage).Created owner :=
  ⟨h.next, by simp [create, log_xmalloc], by simp [create, log_xmalloc]⟩

/-- What the ledger has of an open session. -/
structure Held (h : Heap) (owner : Nat) : Prop where
  known : ∀ field, h.Known owner field
  created : h.Created owner

theorem Held.moves {h h' : Heap} {o owner : Nat} (hh : h.Held owner) (hm : Moves o h h') :
    h'.Held owner :=
  ⟨fun field => hm.known (hh.known field), hh.created.grows hm.grows⟩

theorem Held.record {h : Heap} {owner : Nat} (hh : h.Held owner) (e : Entry) :
    (h.record e).Held owner :=
  ⟨fun field => (hh.known field).record e, hh.created.grows (List.prefix_append ..)⟩

theorem Held.create {h : Heap} {o owner : Nat} (hh : h.Held o) (hne : o ≠ owner)
    (garbage : Pointer → Option Nat) : (h.create owner garbage).Held o :=
  ⟨fun field => (hh.known field).create hne garbage, hh.created.grows (create_grows ..)⟩

theorem iocpInit_held (h : Heap) (owner : Nat) (garbage : Pointer → Option Nat) (mem : Alloc) :
    ((h.create owner garbage).iocpInit owner mem).Held owner :=
  ⟨iocpInit_known mem (known_xmalloc_self ..),
    (create_created h owner garbage).grows (Moves.grows (iocpInit_writes ..).moves)⟩

/-- The three parts of closing a session. -/
theorem close_moves (h : Heap) (owner : Nat) :
    Moves owner h (((h.iocpDestroy owner).clear owner).iocpDestroy owner) :=
  ((iocpDestroy_moves h owner).trans (clear_writes _ owner).moves).trans
    (iocpDestroy_moves _ owner)

/-- Without a closed session there is nothing to give back. -/
theorem Books.balanced {h : Heap} (hb : h.Books) (hopen : ∀ owner, .closed owner ∉ h.log) :
    Balanced h.log where
  freed owner _ hclosed := absurd hclosed (hopen owner)
  stored := hb.stored
  destroyed owner _ hclosed := absurd hclosed (hopen owner)

/-- The memory of a closed session is never given back. -/
theorem Books.unbalanced {h : Heap} {owner : Nat} (hb : h.Books) (hcreated : h.Created owner)
    (hclosed : .closed owner ∈ h.log) : ¬ Balanced h.log := by
  intro hbalanced
  obtain ⟨block, hmalloc, hself⟩ := hcreated
  have hnone : h.log.countP (Entry.frees block) = 0 := by
    rw [List.countP_eq_zero]
    intro e he hfrees
    cases e with
    | free o f value =>
      cases of_decide_eq_true hfrees
      have hstore := hb.stored.mem (fun before after e => Entry.Stored.mono after) he
      exact hb.apart o owner f block (hb.freed o f _ he) hstore hself
    | malloc | store | destroy | closed => cases hfrees
  have hone := hbalanced.freed owner block hclosed hmalloc
  omega

end Heap

end ChainSocket.Memory
