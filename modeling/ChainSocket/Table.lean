import ChainSocket.Session
import ChainSocket.Lib.Effect
import Mathlib.Logic.Function.Basic

/-!
# The session table

`sessions` of both `Poller`s, with the history the results are about, and the steps their code can
be broken into.

* `Move`: what can happen to the table in one step;
* `loop_streams`, `loop_settled`: every open session's stream stays whole;
* `loop_matched`, `create_matched`: as long as no session is created in a slot that an event waits
  for, every action is on the session the event was generated for.
-/

namespace ChainSocket

/-- An event or a completion of the batch, and the birth of the session it was generated for. -/
structure Waiting (n : Nat) where
  id : Fin n
  birth : Nat
  deriving DecidableEq

/-- A session opened at `id` on the socket `fd`: the events that were waiting at that moment, and
the socket connections were being accepted from. -/
structure Opening (n : Nat) where
  id : Fin n
  fd : Nat
  waiting : List (Waiting n)
  listening : Option Nat
  deriving DecidableEq

/-- Neither the slot nor the socket is one that the loop is about to use for another session. -/
def Opening.Fresh {n : Nat} (o : Opening n) : Prop :=
  (∀ e ∈ o.waiting, e.id ≠ o.id) ∧ o.listening ≠ some o.fd

instance {n : Nat} (o : Opening n) : Decidable o.Fresh :=
  inferInstanceAs (Decidable ((∀ e ∈ o.waiting, e.id ≠ o.id) ∧ o.listening ≠ some o.fd))

/-- An action of the loop: the session whose event it is for, and the session it is run on. -/
structure Act where
  event : Nat
  target : Nat
  deriving DecidableEq

structure Table (n : Nat) where
  sessions : Fin n → Option Session
  /-- How many sessions have been created. -/
  births : Nat
  /-- The session that owns each open socket. -/
  owner : Nat → Option Nat
  waiting : List (Waiting n)
  /-- The socket connections are being accepted from, and the session of that event. -/
  listening : Option (Nat × Nat)
  opened : List (Opening n)
  acts : List Act
  /-- The sessions at every entry and exit of a callback, and between the calls. -/
  trail : List (Fin n → Option Session)

open Relation (ReflTransGen)

abbrev TableM (n : Nat) := EStateM Fault (Table n)

namespace Table

variable {n : Nat}

/-- The id of the first slot. -/
def front {n : Nat} : Fin (n + 1) := 0

def empty : Table n :=
  { sessions := fun _ => none, births := 0, owner := fun _ => none, waiting := [],
    listening := none, opened := [], acts := [], trail := [] }

def put (t : Table n) (id : Fin n) (s : Session) : Table n :=
  { t with sessions := Function.update t.sessions id (some s) }

def create (t : Table n) (id : Fin n) (fd : Nat) (type : SessionType) (mem : Alloc) : Table n :=
  { t with
    sessions := Function.update t.sessions id (some (.create id fd type t.births mem))
    births := t.births + 1
    owner := Function.update t.owner fd (some t.births)
    opened := t.opened ++ [⟨id, fd, t.waiting, t.listening.map Prod.fst⟩] }

def remove (t : Table n) (id : Fin n) (fd : Nat) : Table n :=
  { t with
    sessions := Function.update t.sessions id none
    owner := Function.update t.owner fd none }

def record (t : Table n) (event target : Nat) : Table n :=
  { t with acts := t.acts ++ [⟨event, target⟩] }

@[simp] theorem sessions_put (t : Table n) (id i : Fin n) (s : Session) :
    (t.put id s).sessions i = if i = id then some s else t.sessions i :=
  Function.update_apply ..

@[simp] theorem sessions_create (t : Table n) (id i : Fin n) (fd : Nat) (type : SessionType)
    (mem : Alloc) : (t.create id fd type mem).sessions i =
      if i = id then some (.create id fd type t.births mem) else t.sessions i :=
  Function.update_apply ..

@[simp] theorem sessions_remove (t : Table n) (id i : Fin n) (fd : Nat) :
    (t.remove id fd).sessions i = if i = id then none else t.sessions i :=
  Function.update_apply ..

@[simp] theorem owner_create (t : Table n) (id : Fin n) (fd sock : Nat) (type : SessionType)
    (mem : Alloc) : (t.create id fd type mem).owner sock =
      if sock = fd then some t.births else t.owner sock :=
  Function.update_apply ..

@[simp] theorem owner_remove (t : Table n) (id : Fin n) (fd sock : Nat) :
    (t.remove id fd).owner sock = if sock = fd then none else t.owner sock :=
  Function.update_apply ..

/-- The record of a batch that is about to be handled. -/
def begin (t : Table n) (waiting : List (Waiting n)) : Table n :=
  { t with waiting, listening := none, opened := [], acts := [] }

/-- `*sessions[id]`. -/
def slot (id : Fin n) : TableM n Session := fun t =>
  match t.sessions id with
  | none => .error .slot t
  | some s => .ok s t

def change (id : Fin n) (f : Session → Except Fault Session) : TableM n Unit := fun t =>
  match t.sessions id with
  | none => .error .slot t
  | some s =>
    match f s with
    | .error e => .error e t
    | .ok s' => .ok () (t.put id s')

def observe : TableM n Unit :=
  modify fun t => { t with trail := t.trail ++ [t.sessions] }

/-- An action for the session `event`, on whichever session is now at `id`. -/
def act (event : Nat) (id : Fin n) : TableM n Unit :=
  modify fun t =>
    match t.sessions id with
    | none => t
    | some s => t.record event s.birth

/-! ## Steps -/

/-- The steps made while the event `cur` is handled, with connections accepted from `sock`, other
than the creation of a session. Calls from outside the loop are steps with neither. -/
inductive Move (w : Bool) (cur : Option (Waiting n)) (sock : Option Nat) :
    Table n → Table n → Prop
  | observe (t : Table n) : Move w cur sock t { t with trail := t.trail ++ [t.sessions] }
  | change {t : Table n} (id : Fin n) {s s' : Session} (filled : t.sessions id = some s)
      (move : s.Move w s') : Move w cur sock t (t.put id s')
  | remove {t : Table n} (id : Fin n) {s : Session} (filled : t.sessions id = some s) :
      Move w cur sock t (t.remove id s.fd)
  | act {t : Table n} {e : Waiting n} {s : Session} (current : cur = some e)
      (filled : t.sessions e.id = some s) : Move w cur sock t (t.record e.birth s.birth)
  | accept {t : Table n} {e : Waiting n} {fd target : Nat} (current : cur = some e)
      (listening : sock = some fd) (owned : t.owner fd = some target) :
      Move w cur sock t (t.record e.birth target)

/-- The steps of the loop: those for the events that wait, and going from one to the next. -/
inductive LoopMove (w : Bool) : Table n → Table n → Prop
  | move {t t' : Table n} {cur : Option (Waiting n)} {sock : Option Nat}
      (waiting : ∀ e, cur = some e → e ∈ t.waiting)
      (listening : ∀ e fd, cur = some e → sock = some fd → t.listening = some (fd, e.birth))
      (move : Move w cur sock t t') : LoopMove w t t'
  | listen {t : Table n} {e : Waiting n} {s : Session} (waiting : e ∈ t.waiting)
      (filled : t.sessions e.id = some s) :
      LoopMove w t { t with listening := some (s.fd, e.birth) }
  | unlisten (t : Table n) : LoopMove w t { t with listening := none }
  | pop (t : Table n) : LoopMove w t { t with waiting := t.waiting.tail }

theorem Move.frame {w : Bool} {cur : Option (Waiting n)} {sock : Option Nat} {t t' : Table n}
    (h : Move w cur sock t t') :
    t'.waiting = t.waiting ∧ t'.listening = t.listening ∧ t'.opened = t.opened := by
  cases h with
  | observe | change | remove | act | accept => exact ⟨rfl, rfl, rfl⟩

theorem Move.writable {w : Bool} {cur : Option (Waiting n)} {sock : Option Nat}
    {t t' : Table n} (h : Move w cur sock t t') : Move true cur sock t t' := by
  cases h with
  | observe => exact .observe t
  | change id filled move => exact .change id filled move.writable
  | remove id filled => exact .remove id filled
  | act current filled => exact .act current filled
  | accept current listening owned => exact .accept current listening owned

theorem LoopMove.writable {w : Bool} {t t' : Table n} (h : LoopMove w t t') :
    LoopMove true t t' := by
  cases h with
  | move waiting listening move => exact .move waiting listening move.writable
  | listen waiting filled => exact .listen waiting filled
  | unlisten => exact .unlisten t
  | pop => exact .pop t

/-- A step made for an event that waits is a step of the loop. -/
theorem Move.loop {w : Bool} {e : Waiting n} {sock : Option Nat} {t t' : Table n}
    (h : Move w (some e) sock t t') (he : e ∈ t.waiting)
    (hsock : ∀ fd, sock = some fd → t.listening = some (fd, e.birth)) : LoopMove w t t' := by
  refine .move ?_ ?_ h
  · intro e' he'
    cases he'
    exact he
  · intro e' fd he' hfd
    cases he'
    exact hsock fd hfd

/-! ## The operations and their steps -/

theorem slot_run {t : Table n} {id : Fin n} {s : Session} (h : t.sessions id = some s) :
    (slot id).run t = .ok s t := by
  change slot id t = _
  simp only [slot, h]

theorem slot_none {t : Table n} {id : Fin n} (h : t.sessions id = none) :
    (slot id).run t = .error .slot t := by
  change slot id t = _
  simp only [slot, h]

theorem change_run {t : Table n} {id : Fin n} {f : Session → Except Fault Session}
    {s s' : Session} (h : t.sessions id = some s) (hf : f s = .ok s') :
    (change id f).run t = .ok () (t.put id s') := by
  change change id f t = _
  simp only [change, h, hf]

theorem change_error {t : Table n} {id : Fin n} {f : Session → Except Fault Session}
    {s : Session} {e : Fault} (h : t.sessions id = some s) (hf : f s = .error e) :
    (change id f).run t = .error e t := by
  change change id f t = _
  simp only [change, h, hf]

theorem change_none {t : Table n} {id : Fin n} {f : Session → Except Fault Session}
    (h : t.sessions id = none) : (change id f).run t = .error .slot t := by
  change change id f t = _
  simp only [change, h]

theorem put_put (t : Table n) (id : Fin n) (s s' : Session) :
    (t.put id s).put id s' = t.put id s' := by
  simp only [put, Function.update_idem]

section

variable {w : Bool} {cur : Option (Waiting n)} {sock : Option Nat} {t : Table n}

theorem slot_moves (id : Fin n) :
    Effect.Moves (Move w cur sock) (Move true cur sock) t (slot id) := by
  cases h : t.sessions id with
  | none => exact .of_error (slot_none h) .refl
  | some s => exact .of_ok (slot_run h) .refl

theorem change_moves {id : Fin n} {f : Session → Except Fault Session}
    (hf : ∀ s s', t.sessions id = some s → f s = .ok s' → s.Move w s') :
    Effect.Moves (Move w cur sock) (Move true cur sock) t (change id f) := by
  cases h : t.sessions id with
  | none => exact .of_error (change_none h) .refl
  | some s =>
    cases hs : f s with
    | error e => exact .of_error (change_error h hs) .refl
    | ok s' => exact .of_ok (change_run h hs) (.single (.change id h (hf s s' h hs)))

theorem observe_moves : Effect.Moves (Move w cur sock) (Move true cur sock) t observe :=
  .modify (.single (.observe t))

theorem act_moves (e : Waiting n) :
    Effect.Moves (Move w (some e) sock) (Move true (some e) sock) t (act e.birth e.id) := by
  refine .modify ?_
  split
  · exact .refl
  · rename_i s hs
    exact .single (.act rfl hs)

end

/-- What the moves of a session keep holds of every session in the table. -/
theorem move_sessions {P : Session → Prop} {w : Bool} {cur : Option (Waiting n)}
    {sock : Option Nat} (hmove : ∀ s s', Session.Move w s s' → P s → P s') {t t' : Table n}
    (h : Move w cur sock t t') (hP : ∀ id s, t.sessions id = some s → P s) :
    ∀ id s, t'.sessions id = some s → P s := by
  intro i u hu
  cases h with
  | change id filled move =>
    rw [sessions_put] at hu
    split_ifs at hu with hi
    · cases hu
      exact hmove _ _ move (hP id _ filled)
    · exact hP i u hu
  | remove id filled =>
    rw [sessions_remove] at hu
    split_ifs at hu with hi
    exact hP i u hu
  | observe | act | accept => exact hP i u hu

theorem create_old {t : Table n} {id i : Fin n} {fd : Nat} {type : SessionType} {mem : Alloc}
    {u : Session} (hu : (t.create id fd type mem).sessions i = some u) :
    (i = id ∧ u = .create id fd type t.births mem) ∨ (i ≠ id ∧ t.sessions i = some u) := by
  rw [sessions_create] at hu
  split_ifs at hu with hi
  · cases hu
    exact .inl ⟨hi, rfl⟩
  · exact .inr ⟨hi, hu⟩

/-! ## Outgoing streams -/

/-- Every stream is whole, and was at every point of the trail. -/
structure Streams (t : Table n) : Prop where
  now : ∀ id s, t.sessions id = some s → s.Streams
  trail : ∀ view ∈ t.trail, ∀ id s, view id = some s → s.Streams

theorem empty_streams : (empty : Table n).Streams := by
  constructor
  · intro id s hs
    cases hs
  · intro view hview
    cases hview

theorem move_streams {w : Bool} {cur : Option (Waiting n)} {sock : Option Nat} {t t' : Table n}
    (h : Move w cur sock t t') (hs : t.Streams) : t'.Streams := by
  refine ⟨move_sessions (fun _ _ => Session.move_streams) h hs.now, ?_⟩
  cases h with
  | observe =>
    intro view hview
    rcases List.mem_append.1 hview with hview | hview
    · exact hs.trail view hview
    · rw [List.mem_singleton.1 hview]
      exact hs.now
  | change | remove | act | accept => exact hs.trail

theorem create_streams {t : Table n} (hs : t.Streams) (id : Fin n) (fd : Nat)
    (type : SessionType) (mem : Alloc) : (t.create id fd type mem).Streams := by
  refine ⟨?_, hs.trail⟩
  intro i u hu
  rcases create_old hu with ⟨-, rfl⟩ | ⟨-, hold⟩
  · exact Session.create_streams ..
  · exact hs.now i u hold

theorem LoopMove.opened {w : Bool} {t t' : Table n} (h : LoopMove w t t') :
    t'.opened = t.opened := by
  cases h with
  | move _ _ move => exact move.frame.2.2
  | listen | unlisten | pop => rfl

theorem loop_streams {w : Bool} {t t' : Table n} (h : LoopMove w t t') (hs : t.Streams) :
    t'.Streams := by
  cases h with
  | move _ _ move => exact move_streams move hs
  | listen | unlisten | pop => exact ⟨hs.now, hs.trail⟩

/-- Every stream is whole, and bytes are queued exactly where a `send` was short. -/
def Settled (t : Table n) : Prop :=
  ∀ id s, t.sessions id = some s → s.Streams ∧ (s.short = true ↔ 0 < s.writeBuffer.size)

theorem move_settled {cur : Option (Waiting n)} {sock : Option Nat} {t t' : Table n}
    (h : Move false cur sock t t') (hs : t.Settled) : t'.Settled := by
  refine move_sessions ?_ h hs
  intro s s' move hset
  exact ⟨Session.move_streams move hset.1, Session.move_short move hset.1 hset.2⟩

theorem create_settled {t : Table n} (hs : t.Settled) (id : Fin n) (fd : Nat)
    (type : SessionType) (mem : Alloc) : (t.create id fd type mem).Settled := by
  intro i u hu
  rcases create_old hu with ⟨-, rfl⟩ | ⟨-, hold⟩
  · exact ⟨Session.create_streams .., by simp [Session.create]⟩
  · exact hs i u hold

theorem loop_settled {t t' : Table n} (h : LoopMove false t t') (hs : t.Settled) :
    t'.Settled := by
  cases h with
  | move _ _ move => exact move_settled move hs
  | listen | unlisten | pop => exact hs

/-! ## Events and the sessions they are for -/

/-- The socket of an open session is its own. -/
structure Wf (t : Table n) : Prop where
  owned : ∀ id s, t.sessions id = some s → t.owner s.fd = some s.birth
  distinct : ∀ i j s s', t.sessions i = some s → t.sessions j = some s' → s.fd = s'.fd → i = j

theorem empty_wf : (empty : Table n).Wf := by
  constructor
  · intro id s hs
    cases hs
  · intro i j s s' hs
    cases hs

/-- A changed session has its socket and birth from before. -/
theorem put_old {t : Table n} {id i : Fin n} {s s' u : Session} (hs : t.sessions id = some s)
    (hfd : s'.fd = s.fd) (hb : s'.birth = s.birth) (hu : (t.put id s').sessions i = some u) :
    ∃ v, t.sessions i = some v ∧ u.fd = v.fd ∧ u.birth = v.birth := by
  rw [sessions_put] at hu
  split_ifs at hu with hi
  · cases hu
    exact ⟨s, hi ▸ hs, hfd, hb⟩
  · exact ⟨u, hu, rfl, rfl⟩

theorem remove_old {t : Table n} {id i : Fin n} {fd : Nat} {u : Session}
    (hu : (t.remove id fd).sessions i = some u) : i ≠ id ∧ t.sessions i = some u := by
  rw [sessions_remove] at hu
  split_ifs at hu with hi
  exact ⟨hi, hu⟩

/-- A move makes no session. -/
theorem move_old {w : Bool} {cur : Option (Waiting n)} {sock : Option Nat} {t t' : Table n}
    (h : Move w cur sock t t') :
    t'.births = t.births ∧ ∀ i u, t'.sessions i = some u →
      ∃ v, t.sessions i = some v ∧ u.fd = v.fd ∧ u.birth = v.birth := by
  cases h with
  | change id filled move =>
    obtain ⟨hfd, hb⟩ := Session.move_identity move
    exact ⟨rfl, fun i u hu => put_old filled hfd hb hu⟩
  | remove id filled => exact ⟨rfl, fun i u hu => ⟨u, (remove_old hu).2, rfl, rfl⟩⟩
  | observe | act | accept => exact ⟨rfl, fun i u hu => ⟨u, hu, rfl, rfl⟩⟩

theorem move_wf {w : Bool} {cur : Option (Waiting n)} {sock : Option Nat} {t t' : Table n}
    (h : Move w cur sock t t') (hwf : t.Wf) : t'.Wf := by
  cases h with
  | change id filled move =>
    obtain ⟨hfd, hb⟩ := Session.move_identity move
    constructor
    · intro i u hu
      obtain ⟨v, hv, hvfd, hvb⟩ := put_old filled hfd hb hu
      rw [hvfd, hvb]
      exact hwf.owned i v hv
    · intro i j u u' hu hu' heq
      obtain ⟨v, hv, hvfd, -⟩ := put_old filled hfd hb hu
      obtain ⟨v', hv', hvfd', -⟩ := put_old filled hfd hb hu'
      exact hwf.distinct i j v v' hv hv' (by rw [← hvfd, heq, hvfd'])
  | @remove id s filled =>
    constructor
    · intro i u hu
      obtain ⟨hi, hold⟩ := remove_old hu
      have hne : u.fd ≠ s.fd := fun heq => hi (hwf.distinct i id u s hold filled heq)
      rw [owner_remove, if_neg hne]
      exact hwf.owned i u hold
    · intro i j u u' hu hu' heq
      exact hwf.distinct i j u u' (remove_old hu).2 (remove_old hu').2 heq
  | observe | act | accept => exact ⟨hwf.owned, hwf.distinct⟩

/-- A session on a socket that was closed so far keeps every socket with its own session. -/
theorem create_wf {t : Table n} (hwf : t.Wf) (id : Fin n) {fd : Nat} (type : SessionType)
    (mem : Alloc) (closed : t.owner fd = none) : (t.create id fd type mem).Wf := by
  have other : ∀ i u, t.sessions i = some u → u.fd ≠ fd := by
    intro i u hu heq
    have howned := hwf.owned i u hu
    rw [heq, closed] at howned
    cases howned
  constructor
  · intro i u hu
    rcases create_old hu with ⟨-, rfl⟩ | ⟨-, hold⟩
    · simp [Session.create]
    · rw [owner_create, if_neg (other i u hold)]
      exact hwf.owned i u hold
  · intro i j u u' hu hu' heq
    rcases create_old hu with ⟨hi, rfl⟩ | ⟨-, hold⟩ <;>
      rcases create_old hu' with ⟨hj, rfl⟩ | ⟨-, hold'⟩
    · rw [hi, hj]
    · exact absurd heq.symm (other j u' hold')
    · exact absurd heq (other i u hold)
    · exact hwf.distinct i j u u' hold hold' heq

theorem loop_wf {w : Bool} {t t' : Table n} (h : LoopMove w t t') (hwf : t.Wf) : t'.Wf := by
  cases h with
  | move _ _ move => exact move_wf move hwf
  | listen | unlisten | pop => exact ⟨hwf.owned, hwf.distinct⟩

/-- Every event that waits is for the session in its slot, or the slot is empty; and every action
so far was on the session it was for. -/
structure Matched (t : Table n) : Prop where
  waiting : ∀ e ∈ t.waiting, ∀ s, t.sessions e.id = some s → s.birth = e.birth
  listening : ∀ sock birth, t.listening = some (sock, birth) →
    ∀ target, t.owner sock = some target → target = birth
  acts : ∀ a ∈ t.acts, a.event = a.target

/-- The events are for the sessions that are open. -/
def ForOpen (t : Table n) (events : List (Waiting n)) : Prop :=
  ∀ e ∈ events, ∀ s, t.sessions e.id = some s → s.birth = e.birth

theorem begin_matched {t : Table n} {events : List (Waiting n)} (h : t.ForOpen events) :
    (t.begin events).Matched := by
  refine ⟨h, ?_, ?_⟩
  · intro sock birth hl
    cases hl
  · intro a ha
    cases ha

theorem record_matched {t : Table n} {event target : Nat} (h : t.Matched)
    (heq : event = target) : (t.record event target).Matched := by
  refine ⟨h.waiting, h.listening, ?_⟩
  intro a ha
  rcases List.mem_append.1 ha with ha | ha
  · exact h.acts a ha
  · rw [List.mem_singleton.1 ha]
    exact heq

theorem move_matched {w : Bool} {cur : Option (Waiting n)} {sock : Option Nat} {t t' : Table n}
    (h : Move w cur sock t t') (hwaiting : ∀ e, cur = some e → e ∈ t.waiting)
    (hlistening : ∀ e fd, cur = some e → sock = some fd → t.listening = some (fd, e.birth))
    (hm : t.Matched) : t'.Matched := by
  cases h with
  | change id filled move =>
    obtain ⟨hfd, hb⟩ := Session.move_identity move
    refine ⟨?_, hm.listening, hm.acts⟩
    intro e he u hu
    obtain ⟨v, hv, -, hvb⟩ := put_old filled hfd hb hu
    rw [hvb]
    exact hm.waiting e he v hv
  | remove id filled =>
    refine ⟨?_, ?_, hm.acts⟩
    · intro e he u hu
      exact hm.waiting e he u (remove_old hu).2
    · intro fd birth hl target ht
      rw [owner_remove] at ht
      split_ifs at ht
      exact hm.listening fd birth hl target ht
  | @act e s current filled =>
    exact record_matched hm (hm.waiting e (hwaiting e current) s filled).symm
  | @accept e fd target current hsock owned =>
    have hlisten := hlistening e fd current hsock
    exact record_matched hm (hm.listening fd e.birth hlisten target owned).symm
  | observe => exact ⟨hm.waiting, hm.listening, hm.acts⟩

/-- A session created where no event waits for its slot is for none of the events. -/
theorem create_matched {t : Table n} (hm : t.Matched) (id : Fin n) (fd : Nat)
    (type : SessionType) (mem : Alloc)
    (hfresh : Opening.Fresh ⟨id, fd, t.waiting, t.listening.map Prod.fst⟩) :
    (t.create id fd type mem).Matched := by
  refine ⟨?_, ?_, hm.acts⟩
  · intro e he u hu
    rcases create_old hu with ⟨hid, -⟩ | ⟨-, hold⟩
    · exact absurd hid (hfresh.1 e he)
    · exact hm.waiting e he u hold
  · intro fd' birth hl target ht
    have hne : fd' ≠ fd := by
      intro heq
      apply hfresh.2
      change t.listening = _ at hl
      simp [hl, heq]
    rw [owner_create, if_neg hne] at ht
    exact hm.listening fd' birth hl target ht

theorem loop_matched {w : Bool} {t t' : Table n} (h : LoopMove w t t') (hwf : t.Wf)
    (hm : t.Matched) : t'.Matched := by
  cases h with
  | move waiting listening move => exact move_matched move waiting listening hm
  | @listen e s waiting filled =>
    refine ⟨hm.waiting, ?_, hm.acts⟩
    intro fd birth hl target ht
    cases hl
    have howned := hwf.owned e.id s filled
    dsimp only at ht
    rw [ht] at howned
    cases howned
    exact hm.waiting e waiting s filled
  | unlisten =>
    refine ⟨hm.waiting, ?_, hm.acts⟩
    intro fd birth hl
    cases hl
  | pop =>
    refine ⟨?_, hm.listening, hm.acts⟩
    intro e he
    exact hm.waiting e (List.mem_of_mem_tail he)

end Table

end ChainSocket
