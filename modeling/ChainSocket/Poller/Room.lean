import ChainSocket.Poller.Runs
import ChainSocket.Buffer.Refine

/-!
# The room `recv` is given

* `move_roomy`, `create_roomy`: every step leaves room behind every `readBuffer`;
* `handleAll_roomy`: so `handleReadEvent` finds it, at every event of every batch;
* `messageBuffer_refines`: with it, what a `MessageBuffer` does on whole runs.
-/

namespace ChainSocket

/-- The length that `handleReadEvent` passes to `recv`. -/
def Session.recvLength (conn : Session) : Nat := conn.readBuffer.capacity - conn.readBuffer.size

theorem Session.recvLength_ge {conn : Session} (h : conn.readBuffer.Roomy) :
    bufferSize ≤ conn.recvLength := by
  unfold MessageBuffer.Roomy at h
  unfold recvLength
  omega

theorem Session.push_readBuffer {s s' : Session} {mem : Alloc} {bytes : List UInt8}
    (h : s.push mem bytes = .ok s') : s'.readBuffer = s.readBuffer := by
  obtain ⟨b, -, hret⟩ := Effect.except_bind_inv h
  cases hret
  rfl

theorem Session.offer_readBuffer {s s' : Session} {r : SendResult} (h : s.offer r = .ok s') :
    s'.readBuffer = s.readBuffer := by
  cases r with
  | eagain | error =>
    cases h
    rfl
  | accepted k =>
    obtain ⟨b, -, hret⟩ := Effect.except_bind_inv h
    cases hret
    rfl

theorem Session.move_roomy {w : Bool} {s s' : Session} (h : Session.Move w s s')
    (hs : s.readBuffer.Roomy) : s'.readBuffer.Roomy := by
  cases h with
  | queue _ pushed => rwa [push_readBuffer pushed]
  | send r _ pushed _ offered => rwa [offer_readBuffer offered, push_readBuffer pushed]
  | flush r _ offered => rwa [offer_readBuffer offered]
  | read room => exact room hs
  | register | hand => exact hs

namespace Table

variable {n : Nat}

/-- There is room behind the `readBuffer` of every session. -/
def Roomy (t : Table n) : Prop := ∀ id s, t.sessions id = some s → s.readBuffer.Roomy

theorem move_roomy {w : Bool} {cur : Option (Waiting n)} {sock : Option Nat} {t t' : Table n}
    (h : Move w cur sock t t') (ht : t.Roomy) : t'.Roomy :=
  move_sessions (fun _ _ => Session.move_roomy) h ht

theorem create_roomy {t : Table n} (ht : t.Roomy) (id : Fin n) (fd : Nat) (type : SessionType)
    (mem : Alloc) : (t.create id fd type mem).Roomy := by
  intro i u hu
  rcases create_old hu with ⟨-, rfl⟩ | ⟨-, hold⟩
  · exact MessageBuffer.init_roomy mem
  · exact ht i u hold

theorem loop_roomy {w : Bool} {t t' : Table n} (h : LoopMove w t t') (ht : t.Roomy) :
    t'.Roomy := by
  cases h with
  | move _ _ move => exact move_roomy move ht
  | listen | unlisten | pop => exact ht

end Table

namespace Poller

open Effect

variable {n : Nat}

theorem step_roomy {w : Bool} {p p' : Poller n} (h : Step (Table.LoopMove w) w p p')
    (hp : p.toTable.Roomy) : p'.toTable.Roomy :=
  step_table (fun _ _ => Table.loop_roomy)
    (fun _ id fd type mem _ ht => Table.create_roomy ht id fd type mem) h hp

theorem reachable_roomy {reports : Poller n → Turn n → Prop} {p : Poller n}
    (h : Reachable reports p) : p.toTable.Roomy := by
  induction h with
  | init =>
    intro id s hs
    cases hs
  | turn _ _ returned ih =>
    exact turn_ok (I := fun p => p.toTable.Roomy) (w := true) (fun _ _ h => h)
      (fun _ _ => step_roomy) (fun _ _ _ _ _ => rfl) returned ih

/-- Wherever a batch has come to, the next event finds room behind the `readBuffer`. -/
theorem handleAll_roomy {reports : Poller n → Turn n → Prop} {p q : Poller n}
    (h : Reachable reports p) (before after : List (PollEvent n))
    (hrun : (handleAll before).run (p.begun (before ++ after)) = .ok () q) : q.toTable.Roomy := by
  have hloops : Loops true (p.begun (before ++ after)) (handleAll before) :=
    handleAll_before before after _ (fun _ _ _ => rfl) rfl
  have hbegun : (p.begun (before ++ after)).toTable.Roomy :=
    fun id s hs => reachable_roomy h id s hs
  exact hloops.keeps (G := fun p => p.toTable.Roomy) (fun _ _ => step_roomy) hrun hbegun

end Poller

namespace MessageBuffer

open Refine

/-- From `init`, at every point of every run of operations that fit: the bytes in use are the list
the operations have made, in a block with room behind them; from these very bytes on the operations
go on as they should, and nothing is given back. So no `recv` of a `Poller` has length 0. -/
theorem messageBuffer_refines :
    (∀ (mem : Alloc) (ops more : List Op), mem.ok = true →
      Allowed exec Fits (init mem) (ops ++ more) →
      ∃ offsets b, run exec (init mem) ops = .ok (offsets, b) ∧
        Follows Spec [] ops offsets b.data ∧ b.data.length = b.size ∧
        (∃ block, b.buff = some block ∧ block.length = b.capacity) ∧
        b.size + bufferSize ≤ b.capacity ∧
        ∃ offsets' b', run exec b more = .ok (offsets', b') ∧
          Follows Spec b.data more offsets' b'.data ∧ b.capacity ≤ b'.capacity) ∧
    (∀ (n : Nat) (reports : Poller n → Poller.Turn n → Prop) (p q : Poller n)
      (before after : List (PollEvent n)) (e : PollEvent n) (conn : Session),
      Poller.Reachable reports p →
      (Poller.handleAll before).run (p.begun (before ++ e :: after)) = .ok () q →
      q.sessions e.id = some conn → bufferSize ≤ conn.recvLength) := by
  constructor
  · intro mem ops more hmem hallowed
    obtain ⟨hops, hmore⟩ := allowed_append hallowed
    obtain ⟨offsets, b, l, hrun, hfollows, hholds⟩ :=
      run_follows exec_simulates (init_holds hmem) hops
    obtain ⟨offsets', b', l', hrun', hfollows', hholds'⟩ :=
      run_follows exec_simulates hholds (hmore _ b hrun)
    obtain ⟨block, hblock⟩ := Option.ne_none_iff_exists'.1 hholds.block
    refine ⟨offsets, b, hrun, ?_, hholds.wf.data_length, ⟨block, hblock, ?_⟩, hholds.roomy,
      offsets', b', hrun', ?_, run_le exec_capacity hrun'⟩
    · rw [hholds.data]
      exact hfollows
    · exact (hholds.wf.block block hblock).1
    · rw [hholds.data, hholds'.data]
      exact hfollows'
  · intro n reports p q before after e conn hp hrun hconn
    exact Session.recvLength_ge (Poller.handleAll_roomy hp before (e :: after) hrun e.id conn hconn)

def mem : Alloc := ⟨true, fun _ => 0⟩

theorem fits_once : Allowed exec Fits (init mem) ([.pushBack mem [1, 2]] ++ [.erase 1]) := by
  refine ⟨⟨rfl, by decide, fun _ => by decide⟩, ?_⟩
  intro offset b hb
  obtain ⟨b', hb', hret⟩ := Effect.except_bind_inv hb
  cases hret
  refine ⟨?_, fun _ _ _ => trivial⟩
  change 1 ≤ b.size
  rw [pushBack_size hb']
  exact Nat.le_add_left 1 _

def openScript : PollerScript 1 := .call (.initNewSession 5 .accept mem) .none .done

def opened : Poller 1 := Effect.final ((Poller.turn (.user openScript)).run (.init Nat.one_pos))

def readable : PollEvent 1 :=
  { id := Table.front, birth := 0, read := true, write := false, recv := .received [], mem,
    onRecv := .done, send := .error, onSend := .done, accepts := [] }

theorem messageBuffer_refines_once :
    (∃ offsets b, run exec (init mem) [.pushBack mem [1, 2]] = .ok (offsets, b) ∧
      Follows Spec [] [.pushBack mem [1, 2]] offsets b.data) ∧
    ∃ conn, (opened.begun [readable]).sessions Table.front = some conn ∧
      bufferSize ≤ conn.recvLength := by
  obtain ⟨hruns, hrecv⟩ := messageBuffer_refines
  constructor
  · obtain ⟨offsets, b, hrun, hfollows, -⟩ :=
      hruns mem [.pushBack mem [1, 2]] [.erase 1] rfl fits_once
    exact ⟨offsets, b, hrun, hfollows⟩
  · have hopened : Poller.Reachable (fun _ _ => True) opened :=
      .turn (t := .user openScript) (.init Nat.one_pos) trivial
        (Effect.eq_ok_of_returns (by decide +kernel))
    obtain ⟨conn, hconn⟩ : ∃ conn, (opened.begun [readable]).sessions Table.front = some conn :=
      Option.isSome_iff_exists.1 (by decide +kernel)
    exact ⟨conn, hconn, hrecv 1 _ opened (opened.begun [readable]) [] [] readable conn hopened rfl
      hconn⟩

end MessageBuffer

end ChainSocket
