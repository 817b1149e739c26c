import ChainSocket.WebSocket.StoredLink

/-!
# A connection between two WebSocketPollers, with their sockets

The connection of `StoredLink` where `sendTo` goes through the block of writeBuffer as well: `send`
takes what it happens to, the rest waits for `EVENT_WRITE`, and only what `send` has taken is on its
way.

* `Outgoing.sendTo_returns`, `Outgoing.sendMsg_returns`: what they hand over is queued or sent;
* `wired_simulates`: with what is queued counted as on its way, a step is one of `StoredLink`;
* `wired_link_follows`: the connection is a pair of first-in, first-out channels of messages.
-/

namespace ChainSocket

open CString Effect WebSocketPoller

/-! ## What is handed over -/

/-- The stream is whole, and the queue has a block. -/
structure Session.Queues (s : Session) : Prop where
  streams : s.Streams
  holds : s.writeBuffer.Holds s.writeBuffer.data

namespace Session

theorem create_queues (slot fd : Nat) (type : SessionType) (birth : Nat) {mem : Alloc}
    (hmem : mem.ok = true) : (create slot fd type birth mem).Queues := by
  have hinit := MessageBuffer.init_holds hmem
  exact ⟨create_streams slot fd type birth mem, hinit.wf, hinit.block, rfl, hinit.roomy⟩

/-- `push_back` succeeds as long as the sizes are well within `int`. -/
theorem push_returns {s : Session} (h : s.Queues) {mem : Alloc} (hmem : mem.ok = true)
    {bytes : List UInt8} (hsize : s.writeBuffer.size + bytes.length ≤ 2 ^ 30) :
    ∃ s', s.push mem bytes = .ok s' ∧ s'.Queues ∧ s'.accepted = s.accepted ∧
      s'.pushed = s.pushed ++ bytes ∧ s'.writeBuffer.size = s.writeBuffer.size + bytes.length := by
  have hfits : MessageBuffer.Fits (.pushBack mem bytes) s.writeBuffer := by
    refine ⟨hmem, ?_, fun _ => ?_⟩
    · unfold intMax
      omega
    · unfold MessageBuffer.roundUp bufferSize intMax
      omega
  obtain ⟨b, hb, hholds⟩ := MessageBuffer.pushBack_fits h.holds hfits
  have hpush : s.push mem bytes = .ok { s with writeBuffer := b, pushed := s.pushed ++ bytes } := by
    simp only [push, hb]
    rfl
  obtain ⟨hstreams, hsize', -⟩ := push_spec h.streams hpush
  refine ⟨_, hpush, ⟨hstreams, ?_⟩, rfl, rfl, hsize'⟩
  exact ⟨hholds.wf, hholds.block, rfl, hholds.roomy⟩

theorem offer_returns {s : Session} (h : s.Queues) (r : SendResult) :
    ∃ s', s.offer r = .ok s' ∧ s'.Queues ∧ s.accepted <+: s'.accepted ∧ s'.pushed = s.pushed ∧
      s'.writeBuffer.size ≤ s.writeBuffer.size := by
  obtain ⟨s', hoffer, hstreams, hsize, -⟩ := offer_spec h.streams r
  refine ⟨s', hoffer, ?_⟩
  cases r with
  | eagain | error =>
    cases hoffer
    exact ⟨⟨hstreams, h.holds⟩, List.prefix_refl _, rfl, hsize⟩
  | accepted k =>
    obtain ⟨b, hb, hret⟩ := except_bind_inv hoffer
    cases hret
    obtain ⟨b', hb', hholds⟩ := MessageBuffer.erase_fits h.holds (Nat.min_le_right k _)
    rw [hb] at hb'
    cases hb'
    refine ⟨⟨hstreams, ?_⟩, List.prefix_append .., rfl, hsize⟩
    exact ⟨hholds.wf, hholds.block, rfl, hholds.roomy⟩

end Session

namespace Outgoing

/-- The session has been handed `bytes` more. -/
structure Hands (o : Outgoing) (bytes : List UInt8) (o' : Outgoing) : Prop where
  queues : o'.session.Queues
  connect : o'.isConnect = o.isConnect
  accepted : o.session.accepted <+: o'.session.accepted
  pushed : o'.session.pushed = o.session.pushed ++ bytes
  size : o'.session.writeBuffer.size ≤ o.session.writeBuffer.size + bytes.length

theorem Hands.refl {o : Outgoing} (h : o.session.Queues) : o.Hands [] o :=
  ⟨h, rfl, List.prefix_refl _, by simp, by simp⟩

theorem Hands.trans {o o₁ o₂ : Outgoing} {bytes more : List UInt8} (h : o.Hands bytes o₁)
    (h' : o₁.Hands more o₂) : o.Hands (bytes ++ more) o₂ := by
  refine ⟨h'.queues, h'.connect.trans h.connect, h.accepted.trans h'.accepted, ?_, ?_⟩
  · rw [h'.pushed, h.pushed, List.append_assoc]
  · have := h.size
    have := h'.size
    rw [List.length_append]
    omega

/-- What the record beside the session notes is nothing to it. -/
theorem Hands.noted {o o₁ o₂ : Outgoing} {bytes : List UInt8} (h : o.Hands bytes o₁)
    (hsession : o₂.session = o₁.session) (hconnect : o₂.isConnect = o₁.isConnect) :
    o.Hands bytes o₂ := by
  obtain ⟨queues, connect, accepted, pushed, size⟩ := h
  rw [← hsession] at queues accepted pushed size
  exact ⟨queues, hconnect.trans connect, accepted, pushed, size⟩

theorem postSend_returns {o : Outgoing} (h : o.session.Queues) (r : SendResult) :
    ∃ n o', (postSend r (pure ())).run o = .ok n o' ∧ o.Hands [] o' ∧ (r ≠ .error → n = 0) := by
  unfold postSend
  rw [run_bind_ok (run_get o)]
  split_ifs with hnone
  · exact ⟨0, o, rfl, .refl h, fun _ => rfl⟩
  · obtain ⟨s', hoffer, hqueues, haccepted, hpushed, hsize⟩ := Session.offer_returns h r
    rw [run_bind_ok (change_ok hoffer)]
    have hhands : o.Hands [] { o with session := s' } :=
      ⟨hqueues, rfl, haccepted, by simpa using hpushed, by simpa using hsize⟩
    cases r with
    | error => exact ⟨-3, _, rfl, hhands, fun hr => absurd rfl hr⟩
    | eagain => exact ⟨0, _, rfl, hhands, fun _ => rfl⟩
    | accepted k =>
      unfold sent
      dsimp only
      split_ifs
      · exact ⟨0, _, rfl, hhands, fun _ => rfl⟩
      · exact ⟨0, _, rfl, hhands, fun _ => rfl⟩

theorem sendTo_returns {o : Outgoing} (h : o.session.Queues) {mem : Alloc} (hmem : mem.ok = true)
    {buf : List UInt8} (hsize : o.session.writeBuffer.size + buf.length ≤ 2 ^ 30)
    (r : SendResult) :
    ∃ o', (sendTo mem buf r (pure ())).run o = .ok () o' ∧ o.Hands buf o' := by
  obtain ⟨s', hpush, hqueues, haccepted, hpushed, hlen⟩ := Session.push_returns h hmem hsize
  have hhands : o.Hands buf { o with session := s' } :=
    ⟨hqueues, rfl, by simp [haccepted], hpushed, hlen.le⟩
  have hchange : (change (·.push mem buf)).run o = .ok () { o with session := s' } :=
    change_ok hpush
  unfold sendTo
  rw [run_bind_ok (run_get o)]
  split_ifs
  · exact ⟨_, hchange, hhands⟩
  · obtain ⟨n, o', hpost, hsent, -⟩ := postSend_returns (o := { o with session := s' }) hqueues r
    rw [run_bind_ok hchange, run_bind_ok hpost]
    refine ⟨o', rfl, ?_⟩
    simpa using hhands.trans hsent

theorem hands_run (bufs : List (List UInt8)) (o : Outgoing) :
    (hands bufs).run o = .ok () { o with unsent := bufs.flatten :: o.unsent.tail } := rfl

/-- The answers of the system, with an `onSend` that does nothing. -/
def quietly (answers : List MsgAnswer) : List (MsgAnswer × OutgoingM Unit) :=
  answers.map fun a => (a, pure ())

/-- Every block that is asked for is found. -/
def Found (answers : List MsgAnswer) : Prop := ∀ a ∈ answers, a.mem.ok = true

theorem Found.tail {answers : List MsgAnswer} (h : Found answers) : Found answers.tail :=
  fun a ha => h a (List.mem_of_mem_tail ha)

theorem answer_quietly {answers : List MsgAnswer} (h : Found answers) :
    (answer (quietly answers)).1.mem.ok = true ∧ (answer (quietly answers)).2 = pure () := by
  cases answers with
  | nil => exact ⟨rfl, rfl⟩
  | cons a answers => exact ⟨h a List.mem_cons_self, rfl⟩

theorem quietly_tail (answers : List MsgAnswer) :
    (quietly answers).tail = quietly answers.tail := by
  simp [quietly]

/-- The next `sendTo`, with the first of the answers. -/
theorem next_returns {o : Outgoing} (h : o.session.Queues) {answers : List MsgAnswer}
    (hfound : Found answers) (buf : List UInt8)
    (hsize : o.session.writeBuffer.size + buf.length ≤ 2 ^ 30) :
    ∃ o', (sendTo (answer (quietly answers)).1.mem buf (answer (quietly answers)).1.send
      (answer (quietly answers)).2).run o = .ok () o' ∧ o.Hands buf o' := by
  obtain ⟨hmem, hquiet⟩ := answer_quietly hfound
  rw [hquiet]
  exact sendTo_returns h hmem hsize _

theorem sendBufs_returns {o : Outgoing} (h : o.session.Queues) {bufs : List (List UInt8)}
    {answers : List MsgAnswer} (hfound : Found answers)
    (hsize : o.session.writeBuffer.size + bufs.flatten.length ≤ 2 ^ 30) :
    ∃ o', (sendBufs bufs (quietly answers)).run o = .ok () o' ∧ o.Hands bufs.flatten o' := by
  induction bufs generalizing o answers with
  | nil => exact ⟨o, rfl, .refl h⟩
  | cons buf bufs ih =>
    rw [List.flatten_cons, List.length_append] at hsize
    obtain ⟨o₁, hnext, hhands⟩ := next_returns
      (o := { o with unsent := bufs.flatten :: o.unsent.tail }) h hfound buf
      (by dsimp only; omega)
    have hlen := hhands.size
    dsimp only at hlen
    obtain ⟨o₂, hrest, hmore⟩ := ih hhands.queues hfound.tail (by omega)
    refine ⟨o₂, ?_, ?_⟩
    · rw [sendBufs, run_bind_ok (hands_run bufs o), run_bind_ok hnext, quietly_tail]
      exact hrest
    · have hall := hhands.trans hmore
      exact ⟨hall.queues, hall.connect, hall.accepted, hall.pushed, hall.size⟩

theorem sendMsg_returns {o : Outgoing} (h : o.session.Queues) {answers : List MsgAnswer}
    (hfound : Found answers) {msg : List UInt8} {bufs : List (List UInt8)} {left : List UInt8}
    (hsend : ChainSocket.sendMsg o.isConnect msg = .ok (bufs, left))
    (hsize : o.session.writeBuffer.size + bufs.flatten.length ≤ 2 ^ 30) :
    ∃ o', (sendMsg msg (quietly answers)).run o = .ok () o' ∧ o.Hands bufs.flatten o' := by
  have hbegins : (begins msg bufs).run o = .ok () { o with
      log := o.log ++ [.begins o.unsent]
      msgs := o.msgs ++ [msg]
      unsent := bufs.flatten :: o.unsent } := rfl
  obtain ⟨o₁, hbufs, hhands⟩ := sendBufs_returns (o := { o with
    log := o.log ++ [.begins o.unsent], msgs := o.msgs ++ [msg],
    unsent := bufs.flatten :: o.unsent }) h hfound hsize
  refine ⟨{ o₁ with unsent := o₁.unsent.tail }, ?_, ?_⟩
  · unfold sendMsg
    rw [run_bind_ok (run_get o), hsend]
    dsimp only
    rw [run_bind_ok hbegins, run_bind_ok hbufs]
    rfl
  · exact ⟨hhands.queues, hhands.connect, hhands.accepted, hhands.pushed, hhands.size⟩

/-- The calls of `sendTo` among those of an `onRecv`. -/
def handOver : List WsCall → List MsgAnswer → OutgoingM Unit
  | [], _ => return
  | .sendTo buf :: calls, answers => do
    let (a, onSend) := answer (quietly answers)
    sendTo a.mem buf a.send onSend
    handOver calls answers.tail
  | _ :: calls, answers => handOver calls answers

theorem handOver_returns {o : Outgoing} (h : o.session.Queues) {calls : List WsCall}
    {answers : List MsgAnswer} (hfound : Found answers)
    (hsize : o.session.writeBuffer.size + (Link.wireOf calls).length ≤ 2 ^ 30) :
    ∃ o', (handOver calls answers).run o = .ok () o' ∧ o.Hands (Link.wireOf calls) o' := by
  induction calls generalizing o answers with
  | nil => exact ⟨o, rfl, .refl h⟩
  | cons c calls ih =>
    cases c with
    | sendTo buf =>
      have hwire : Link.wireOf (.sendTo buf :: calls) = buf ++ Link.wireOf calls := by
        simp [Link.wireOf]
      rw [hwire, List.length_append] at hsize
      obtain ⟨o₁, hnext, hhands⟩ := next_returns h hfound buf (by omega)
      have hlen := hhands.size
      obtain ⟨o₂, hrest, hmore⟩ := ih hhands.queues hfound.tail (by omega)
      refine ⟨o₂, ?_, hwire ▸ hhands.trans hmore⟩
      rw [handOver, run_bind_ok hnext]
      exact hrest
    | onReadMsg payload => exact ih h hfound hsize
    | onHandShake => exact ih h hfound hsize
    | closeSession sessionId type => exact ih h hfound hsize

end Outgoing

/-! ## The connection -/

/-- A side: its session as `onRecv` has it and as `sendTo` has it, and how much of the other
side's bytes `recv` has taken. -/
structure WiredEnd where
  ws : WsStored
  out : Outgoing
  taken : Nat

structure WiredLink where
  client : WiredEnd
  server : WiredEnd

inductive WiredEvent where
  | clientSends (msg : List UInt8) (answers : List MsgAnswer)
  | serverSends (msg : List UInt8) (answers : List MsgAnswer)
  /-- `EVENT_WRITE`, and what `send` answers. -/
  | clientWritable (r : SendResult)
  | serverWritable (r : SendResult)
  /-- `recv` takes up to `n` bytes; `answers` are for what `onRecv` hands to `sendTo`. -/
  | toServer (n : Nat) (mem : Alloc) (hs : Handshake) (answers : List MsgAnswer)
  | toClient (n : Nat) (mem : Alloc) (hs : Handshake) (answers : List MsgAnswer)

namespace WiredEnd

def sends (e : WiredEnd) (msg : List UInt8) (answers : List MsgAnswer) : Except Fault WiredEnd :=
  match (Outgoing.sendMsg msg (Outgoing.quietly answers)).run e.out with
  | .ok _ out => .ok { e with out }
  | .error fault _ => .error fault

/-- `EVENT_WRITE`, in the event loop. -/
def writable (e : WiredEnd) (r : SendResult) : Except Fault (List WsCall × WiredEnd) :=
  match e.ws.conn, (Outgoing.postSend r (pure ())).run e.out with
  | none, _ => .ok ([], e)
  | some _, .error fault _ => .error fault
  | some c, .ok ret out =>
    if ret < 0 then
      match (StoredPoller.closeSession .sendError2).run e.ws with
      | .ok _ ws => .ok ([.closeSession c.sessionId .sendError2], { e with ws, out })
      | .error fault _ => .error fault
    else .ok ([], { e with out })

/-- What is on its way to `e`. -/
def wire (e peer : WiredEnd) : List UInt8 := peer.out.session.accepted.drop e.taken

def receives (e peer : WiredEnd) (n : Nat) (mem : Alloc) (hs : Handshake)
    (answers : List MsgAnswer) : Except Fault (List WsCall × WiredEnd) := do
  let (calls, ws) ← StoredLink.receives e.ws (e.ws.recv n (e.wire peer)) mem hs
  match (Outgoing.handOver calls answers).run e.out with
  | .ok _ out =>
    return (calls, ⟨ws, out, e.taken + ((e.wire peer).take (min n e.ws.room)).length⟩)
  | .error fault _ => .error fault

/-- What `e` has been handed and `peer` has not had. -/
def behind (e peer : WiredEnd) : List UInt8 := e.out.session.pushed.drop peer.taken

end WiredEnd

namespace WiredLink

def exec : WiredEvent → WiredLink → Except Fault (List WsCall × WiredLink)
  | .clientSends msg answers, l => do
    let client ← l.client.sends msg answers
    return ([], { l with client })
  | .serverSends msg answers, l => do
    let server ← l.server.sends msg answers
    return ([], { l with server })
  | .clientWritable r, l => do
    let (calls, client) ← l.client.writable r
    return (calls, { l with client })
  | .serverWritable r, l => do
    let (calls, server) ← l.server.writable r
    return (calls, { l with server })
  | .toServer n mem hs answers, l => do
    let (calls, server) ← l.server.receives l.client n mem hs answers
    return (calls, { l with server })
  | .toClient n mem hs answers, l => do
    let (calls, client) ← l.client.receives l.server n mem hs answers
    return (calls, { l with client })

/-- Blocks are found, no queue has grown to half a GiB, `send` fails at no `EVENT_WRITE`, and
`sendMsg` is called as in `Link.Legal`. -/
def Legal : WiredEvent → WiredLink → Prop
  | .clientSends msg answers, l => msg.length ≤ 0xFFFF ∧ Outgoing.Found answers ∧
      l.client.out.session.writeBuffer.size ≤ 2 ^ 29
  | .serverSends msg answers, l => msg.length ≤ 0xFFFF ∧ Outgoing.Found answers ∧
      l.server.out.session.writeBuffer.size ≤ 2 ^ 29 ∧
      l.server.ws.conn.map (fun c => c.userData) = some .frame
  | .clientWritable r, _ | .serverWritable r, _ => r ≠ .error
  | .toServer n mem hs answers, l =>
    StoredPoller.Fits (hs, ⟨l.server.ws.recv n (l.server.wire l.client), mem⟩) l.server.ws ∧
      Outgoing.Found answers ∧ l.server.out.session.writeBuffer.size ≤ 2 ^ 29
  | .toClient n mem hs answers, l =>
    StoredPoller.Fits (hs, ⟨l.client.ws.recv n (l.client.wire l.server), mem⟩) l.client.ws ∧
      Outgoing.Found answers ∧ l.client.out.session.writeBuffer.size ≤ 2 ^ 29

/-- The same connection, with what is queued counted as on its way. -/
def whole (l : WiredLink) : StoredLink :=
  ⟨l.client.ws, l.server.ws, l.client.behind l.server, l.server.behind l.client⟩

end WiredLink

/-- What an event is to the conversation: `EVENT_WRITE` is nothing. -/
def WiredEvent.Step : WiredEvent → Conversation → List WsCall → Conversation → Prop
  | .clientSends msg _, c, r, c' => Conversation.Step (.clientSends msg) c r c'
  | .serverSends msg _, c, r, c' => Conversation.Step (.serverSends msg) c r c'
  | .clientWritable _, c, r, c' | .serverWritable _, c, r, c' => r = [] ∧ c' = c
  | .toServer n _ hs _, c, r, c' => Conversation.Step (.toServer n [] hs) c r c'
  | .toClient n _ hs _, c, r, c' => Conversation.Step (.toClient n [] hs) c r c'

/-! ## Either side -/

namespace WiredEnd

/-- The queue is in order, and `peer` has had no more than has been sent. -/
structure Keeps (isConnect : Bool) (e peer : WiredEnd) : Prop where
  queues : e.out.session.Queues
  connect : e.out.isConnect = isConnect
  taken : peer.taken ≤ e.out.session.accepted.length

variable {isConnect : Bool} {e e' peer peer' : WiredEnd}

theorem Keeps.behind_eq (h : Keeps isConnect e peer) :
    e.behind peer = peer.wire e ++ e.out.session.writeBuffer.data := by
  unfold behind wire
  rw [← h.queues.streams.stream, List.drop_append_of_le_length h.taken]

/-- `e` has been handed `bytes` more. -/
theorem Keeps.hands (h : Keeps isConnect e peer) {bytes : List UInt8}
    (hhands : e.out.Hands bytes e'.out) (peer' : WiredEnd) (htaken : peer'.taken = peer.taken) :
    Keeps isConnect e' peer' ∧ e'.behind peer' = e.behind peer ++ bytes := by
  have hle := hhands.accepted.length_le
  have hpushed : peer.taken ≤ e.out.session.pushed.length := by
    rw [← h.queues.streams.stream, List.length_append]
    exact h.taken.trans (Nat.le_add_right _ _)
  refine ⟨⟨hhands.queues, hhands.connect.trans h.connect, ?_⟩, ?_⟩
  · rw [htaken]
    exact h.taken.trans hle
  · unfold behind
    rw [htaken, hhands.pushed, List.drop_append_of_le_length hpushed]

theorem sends_returns (h : Keeps isConnect e peer) {msg : List UInt8} {bufs : List (List UInt8)}
    {left : List UInt8} {answers : List MsgAnswer} (hfound : Outgoing.Found answers)
    (hsend : sendMsg isConnect msg = .ok (bufs, left))
    (hsize : e.out.session.writeBuffer.size + bufs.flatten.length ≤ 2 ^ 30) :
    ∃ e', e.sends msg answers = .ok e' ∧ e'.ws = e.ws ∧ e'.taken = e.taken ∧
      e.out.Hands bufs.flatten e'.out := by
  rw [← h.connect] at hsend
  obtain ⟨out, hrun, hhands⟩ := Outgoing.sendMsg_returns h.queues hfound hsend hsize
  refine ⟨{ e with out }, ?_, rfl, rfl, hhands⟩
  unfold sends
  rw [hrun]

theorem writable_returns (h : Keeps isConnect e peer) {r : SendResult} (hr : r ≠ .error) :
    ∃ e', e.writable r = .ok ([], e') ∧ e'.ws = e.ws ∧ e'.taken = e.taken ∧
      e.out.Hands [] e'.out := by
  obtain ⟨ret, out, hrun, hhands, hret⟩ := Outgoing.postSend_returns h.queues r
  unfold writable
  cases hconn : e.ws.conn with
  | none => exact ⟨e, by rw [hrun], rfl, rfl, .refl h.queues⟩
  | some c =>
    refine ⟨{ e with out }, ?_, rfl, rfl, hhands⟩
    rw [hrun]
    dsimp only
    rw [if_neg (by rw [hret hr]; decide)]

/-- What `recv` finds on its way is what it finds of all that has been handed over, as far as
that has been sent. -/
theorem recv_whole (s : WsStored) (n : Nat) (wire queued : List UInt8) :
    s.recv (min n wire.length) (wire ++ queued) = s.recv n wire := by
  have htake : (wire ++ queued).take (min (min n wire.length) s.room) =
      wire.take (min n s.room) := by
    rw [List.take_append_of_le_length (by omega), List.take_eq_take_iff]
    omega
  unfold WsStored.recv
  rw [htake]

/-- `peer` has taken up to `n` bytes, as far as there is `room`. -/
theorem Keeps.takes (h : Keeps isConnect e peer) {n room : Nat}
    (htaken : peer'.taken = peer.taken + ((peer.wire e).take (min n room)).length) :
    Keeps isConnect e peer' ∧
      e.behind peer' = (e.behind peer).drop (min (min n (peer.wire e).length) room) := by
  have hwire : (peer.wire e).length = e.out.session.accepted.length - peer.taken :=
    List.length_drop
  have hle := h.taken
  rw [List.length_take] at htaken
  refine ⟨⟨h.queues, h.connect, by omega⟩, ?_⟩
  unfold behind
  rw [List.drop_drop]
  congr 1
  omega

theorem receives_returns (h : Keeps isConnect e peer) {n : Nat} {mem : Alloc} {hs : Handshake}
    {answers : List MsgAnswer} (hfound : Outgoing.Found answers) {calls : List WsCall}
    {ws : WsStored}
    (hreceives : StoredLink.receives e.ws (e.ws.recv n (e.wire peer)) mem hs = .ok (calls, ws))
    (hsize : e.out.session.writeBuffer.size + (Link.wireOf calls).length ≤ 2 ^ 30) :
    ∃ e', e.receives peer n mem hs answers = .ok (calls, e') ∧ e'.ws = ws ∧
      e'.taken = e.taken + ((e.wire peer).take (min n e.ws.room)).length ∧
      e.out.Hands (Link.wireOf calls) e'.out := by
  obtain ⟨out, hrun, hhands⟩ := Outgoing.handOver_returns h.queues hfound hsize
  refine ⟨⟨ws, out, _⟩, ?_, rfl, rfl, hhands⟩
  simp only [receives, hreceives]
  change (match (Outgoing.handOver calls answers).run e.out with
    | .ok _ out => _
    | .error fault _ => _) = _
  rw [hrun]
  rfl

end WiredEnd

/-! ## A step of the connection -/

namespace WebSocketPoller

variable {ip : List UInt8} {port : Int} {cid sid : Nat}

/-- As far as the conversation `c` has come. -/
structure Wired (ip : List UInt8) (port : Int) (cid sid : Nat) (l : WiredLink)
    (c : Conversation) : Prop where
  client : WiredEnd.Keeps true l.client l.server
  server : WiredEnd.Keeps false l.server l.client
  stored : Stored ip port cid sid l.whole c

theorem wireOf_le {hello : WsCall} {before after : Bool} {msgs : List (List UInt8)} {n : Nat}
    (hhello : (Link.wireOf [hello]).length ≤ n) :
    (Link.wireOf (Conversation.calls hello before after msgs)).length ≤ n := by
  rw [wireOf_calls]
  split_ifs
  · exact Nat.zero_le _
  · exact hhello

/-- What `sendMsg` hands over fits a queue that is well within `int`. -/
theorem sent_fits {isConnect : Bool} {msg : List UInt8} {bufs : List (List UInt8)}
    {left : List UInt8} {size : Nat} (hmsg : msg.length ≤ 0xFFFF)
    (h : sendMsg isConnect msg = .ok (bufs, left)) (hsize : size ≤ 2 ^ 29) :
    size + bufs.flatten.length ≤ 2 ^ 30 := by
  obtain ⟨bufs', hsend, hframe⟩ := sendMsg_frame isConnect hmsg
  rw [h] at hsend
  cases hsend
  have hheader := (textFrame (Encoding.key (.sendMsg2 isConnect)) msg hmsg).length_header
  rw [hframe, Frame.length_bytes]
  have hpayload : (textFrame (Encoding.key (.sendMsg2 isConnect)) msg hmsg).payload = msg := rfl
  rw [hpayload]
  split_ifs at hheader <;> omega

/-- One event, where the same event of the connection over blocks has been taken. -/
theorem wired_simulates (h : PlainHost ip port)
    (hlong : (getStr ip port).length ≤ bufferMaxSize) :
    Refine.Simulates WiredLink.exec WiredLink.Legal WiredEvent.Step (Wired ip port cid sid) := by
  have hstep : Refine.Simulates StoredLink.exec StoredLink.Legal
      (fun e => Conversation.Step e.listed) (Stored ip port cid sid) := stored_simulates h hlong
  rintro e ⟨client, server⟩ c ⟨hclient, hserver, hstored⟩ hlegal
  cases e with
  | clientSends msg answers =>
    obtain ⟨hmsg, hfound, hsize⟩ := hlegal
    obtain ⟨r, l', c', hexec, hspec, hstored'⟩ := hstep (.clientSends msg) _ c hstored hmsg
    obtain ⟨⟨bufs, left⟩, hsend, hret⟩ := except_bind_inv hexec
    cases hret
    obtain ⟨⟨ws, out, taken⟩, hsends, rfl, rfl, hhands⟩ :=
      WiredEnd.sends_returns hclient hfound hsend (sent_fits hmsg hsend hsize)
    obtain ⟨hclient', hbehind⟩ := hclient.hands hhands server rfl
    refine ⟨[], ⟨⟨client.ws, out, client.taken⟩, server⟩, c', ?_, hspec, hclient',
      ⟨hserver.queues, hserver.connect, hserver.taken⟩, ?_⟩
    · simp only [WiredLink.exec, hsends]
      rfl
    · unfold WiredLink.whole
      rw [hbehind]
      exact hstored'
  | serverSends msg answers =>
    obtain ⟨hmsg, hfound, hsize, hphase⟩ := hlegal
    obtain ⟨r, l', c', hexec, hspec, hstored'⟩ :=
      hstep (.serverSends msg) _ c hstored ⟨hmsg, hphase⟩
    obtain ⟨⟨bufs, left⟩, hsend, hret⟩ := except_bind_inv hexec
    cases hret
    obtain ⟨⟨ws, out, taken⟩, hsends, rfl, rfl, hhands⟩ :=
      WiredEnd.sends_returns hserver hfound hsend (sent_fits hmsg hsend hsize)
    obtain ⟨hserver', hbehind⟩ := hserver.hands hhands client rfl
    refine ⟨[], ⟨client, ⟨server.ws, out, server.taken⟩⟩, c', ?_, hspec,
      ⟨hclient.queues, hclient.connect, hclient.taken⟩, hserver', ?_⟩
    · simp only [WiredLink.exec, hsends]
      rfl
    · unfold WiredLink.whole
      rw [hbehind]
      exact hstored'
  | clientWritable r =>
    obtain ⟨⟨ws, out, taken⟩, hwritable, rfl, rfl, hhands⟩ :=
      WiredEnd.writable_returns hclient hlegal
    obtain ⟨hclient', hbehind⟩ := hclient.hands hhands server rfl
    refine ⟨[], ⟨⟨client.ws, out, client.taken⟩, server⟩, c, ?_, ⟨rfl, rfl⟩, hclient',
      ⟨hserver.queues, hserver.connect, hserver.taken⟩, ?_⟩
    · simp only [WiredLink.exec, hwritable]
      rfl
    · unfold WiredLink.whole
      rw [hbehind, List.append_nil]
      exact hstored
  | serverWritable r =>
    obtain ⟨⟨ws, out, taken⟩, hwritable, rfl, rfl, hhands⟩ :=
      WiredEnd.writable_returns hserver hlegal
    obtain ⟨hserver', hbehind⟩ := hserver.hands hhands client rfl
    refine ⟨[], ⟨client, ⟨server.ws, out, server.taken⟩⟩, c, ?_, ⟨rfl, rfl⟩,
      ⟨hclient.queues, hclient.connect, hclient.taken⟩, hserver', ?_⟩
    · simp only [WiredLink.exec, hwritable]
      rfl
    · unfold WiredLink.whole
      rw [hbehind, List.append_nil]
      exact hstored
  | toServer n mem hs answers =>
    obtain ⟨hfits, hfound, hsize⟩ := hlegal
    have hrecv : server.ws.recv (min n (server.wire client).length) (client.behind server) =
        server.ws.recv n (server.wire client) := by
      rw [hclient.behind_eq]
      exact WiredEnd.recv_whole ..
    rw [← hrecv] at hfits
    obtain ⟨r, l', c', hexec, hspec, hstored'⟩ :=
      hstep (.toServer (min n (server.wire client).length) mem hs) _ c hstored hfits
    obtain ⟨⟨calls, ws⟩, hreceives, hret⟩ := except_bind_inv hexec
    cases hret
    have hwire : (Link.wireOf r).length ≤ 2 ^ 29 := by
      obtain ⟨msgs, rfl, -⟩ := hspec
      apply wireOf_le
      have hone : Link.wireOf [.sendTo clientReply] = clientReply := by simp [Link.wireOf]
      rw [hone, length_clientReply]
      decide
    have hreceives :
        StoredLink.receives server.ws (server.ws.recv _ (client.behind server)) mem hs = .ok (r, ws) :=
      hreceives
    rw [hrecv] at hreceives
    obtain ⟨⟨ws', out, taken⟩, hrun, rfl, htaken, hhands⟩ :=
      WiredEnd.receives_returns hserver hfound hreceives (by dsimp only at hsize ⊢; omega)
    obtain ⟨hclient', hup⟩ := hclient.takes htaken
    obtain ⟨hserver', hdown⟩ := hserver.hands hhands client rfl
    refine ⟨r, ⟨client, ⟨ws', out, taken⟩⟩, c', ?_, hspec, hclient', hserver', ?_⟩
    · simp only [WiredLink.exec, hrun]
      rfl
    · unfold WiredLink.whole
      rw [hup, hdown]
      exact hstored'
  | toClient n mem hs answers =>
    obtain ⟨hfits, hfound, hsize⟩ := hlegal
    have hrecv : client.ws.recv (min n (client.wire server).length) (server.behind client) =
        client.ws.recv n (client.wire server) := by
      rw [hserver.behind_eq]
      exact WiredEnd.recv_whole ..
    rw [← hrecv] at hfits
    obtain ⟨r, l', c', hexec, hspec, hstored'⟩ :=
      hstep (.toClient (min n (client.wire server).length) mem hs) _ c hstored hfits
    obtain ⟨⟨calls, ws⟩, hreceives, hret⟩ := except_bind_inv hexec
    cases hret
    have hwire : (Link.wireOf r).length ≤ 2 ^ 29 := by
      obtain ⟨msgs, rfl, -⟩ := hspec
      exact wireOf_le (Nat.zero_le _)
    have hreceives :
        StoredLink.receives client.ws (client.ws.recv _ (server.behind client)) mem hs = .ok (r, ws) :=
      hreceives
    rw [hrecv] at hreceives
    obtain ⟨⟨ws', out, taken⟩, hrun, rfl, htaken, hhands⟩ :=
      WiredEnd.receives_returns hclient hfound hreceives (by dsimp only at hsize ⊢; omega)
    obtain ⟨hserver', hdown⟩ := hserver.takes htaken
    obtain ⟨hclient', hup⟩ := hclient.hands hhands server rfl
    refine ⟨r, ⟨⟨ws', out, taken⟩, server⟩, c', ?_, hspec, hclient', hserver', ?_⟩
    · simp only [WiredLink.exec, hrun]
      rfl
    · unfold WiredLink.whole
      rw [hup, hdown]
      exact hstored'

/-! ## What has been handed on -/

/-- A side that everything has come to has handed on all of it. -/
theorem Carries.all {d : Side} {isConnect opened : Bool} {c : Fifo (List UInt8)} {s : WsState}
    (h : Carries d isConnect true opened c s []) : opened = true ∧ c.received = c.sent := by
  obtain ⟨hopened, hs, hstate⟩ := h.settled
  obtain ⟨got, wire, hat, -⟩ := h
  refine ⟨hopened, ?_⟩
  generalize c.received = msgs at hat ⊢
  cases hat with
  | waits => cases hopened
  | frames hs split run =>
    rw [WsState.mk.injEq, List.append_cancel_left_eq] at hstate
    exact List.map_injective_iff.mpr (fun _ _ h => WsCall.onReadMsg.inj h) hstate.2.2

/-- Both queues are empty, and either side has had all that the other has sent. -/
structure Quiet (l : WiredLink) : Prop where
  client : l.client.out.session.writeBuffer.size = 0
  server : l.server.out.session.writeBuffer.size = 0
  up : l.server.taken = l.client.out.session.accepted.length
  down : l.client.taken = l.server.out.session.accepted.length

theorem Wired.quiet {l : WiredLink} {c : Conversation} (h : Wired ip port cid sid l c)
    (hquiet : Quiet l) : c.up.received = c.up.sent ∧ c.down.received = c.down.sent := by
  have hempty : ∀ {isConnect : Bool} {e peer : WiredEnd}, e.Keeps isConnect peer →
      e.out.session.writeBuffer.size = 0 → peer.taken = e.out.session.accepted.length →
      e.behind peer = [] := by
    intro isConnect e peer hkeeps hsize htaken
    have hdata : e.out.session.writeBuffer.data = [] := by
      rw [← List.length_eq_zero_iff, hkeeps.queues.streams.wf.data_length, hsize]
    rw [hkeeps.behind_eq, hdata, WiredEnd.wire, htaken, List.drop_length]
    rfl
  obtain ⟨l', hlists, hserver, hclient⟩ := h.stored
  have hup : l'.up = [] := hlists.up.symm.trans (hempty h.client hquiet.client hquiet.up)
  have hdown : l'.down = [] := hlists.down.symm.trans (hempty h.server hquiet.server hquiet.down)
  rw [hup] at hserver
  rw [hdown] at hclient
  obtain ⟨haccepted, hall⟩ := hserver.all
  rw [haccepted] at hclient
  exact ⟨hall, hclient.all.2⟩

/-- What a connection starts with. -/
structure Opening where
  ip : List UInt8
  port : Int
  cid : Nat
  sid : Nat
  fd : Nat
  fd' : Nat
  mem : Alloc
  mem' : Alloc
  hs : Handshake
  hs' : Handshake
  /-- To the `sendTo` of `onConnect`. -/
  answers : List MsgAnswer

namespace Opening

/-- Behind `onConnect` and `onAccept`. -/
def start (o : Opening) : WiredLink :=
  let l := StoredLink.start o.ip o.port o.cid o.sid o.mem o.mem' o.hs o.hs'
  let out := Outgoing.start (Session.create o.cid o.fd .connect 0 o.mem) true
  let out' := Outgoing.start (Session.create o.sid o.fd' .accept 0 o.mem') false
  ⟨⟨l.client, final ((Outgoing.handOver l.client.calls o.answers).run out), 0⟩, ⟨l.server, out', 0⟩⟩

/-- The address is plain and not too long, and the blocks are found. -/
structure Plain (o : Opening) : Prop where
  host : PlainHost o.ip o.port
  short : (getStr o.ip o.port).length ≤ bufferMaxSize
  mem : o.mem.ok = true
  mem' : o.mem'.ok = true
  found : Outgoing.Found o.answers

/-- A request that a new session is handed. -/
theorem hands_request (slot fd birth : Nat) {mem : Alloc} (hmem : mem.ok = true)
    {answers : List MsgAnswer} (hfound : Outgoing.Found answers) {request : List UInt8}
    (hlen : request.length ≤ 2 ^ 30) :
    let fresh := Outgoing.start (Session.create slot fd .connect birth mem) true
    ∃ out, (Outgoing.handOver [.sendTo request] answers).run fresh = .ok () out ∧
      fresh.Hands request out := by
  have hwire : Link.wireOf [.sendTo request] = request := by simp [Link.wireOf]
  have hsize : (Session.create slot fd .connect birth mem).writeBuffer.size +
      (Link.wireOf [.sendTo request]).length ≤ 2 ^ 30 := by
    have hnone : (Session.create slot fd .connect birth mem).writeBuffer.size = 0 := rfl
    rw [hnone, hwire]
    omega
  obtain ⟨out, hrun, hhands⟩ := Outgoing.handOver_returns
    (o := Outgoing.start (Session.create slot fd .connect birth mem) true)
    (Session.create_queues slot fd .connect birth hmem) hfound hsize
  rw [hwire] at hhands
  exact ⟨out, hrun, hhands⟩

theorem start_wired {o : Opening} (h : o.Plain) :
    Wired o.ip o.port o.cid o.sid o.start Conversation.start := by
  have hstored : Stored o.ip o.port o.cid o.sid
      (StoredLink.start o.ip o.port o.cid o.sid o.mem o.mem' o.hs o.hs') Conversation.start :=
    stored_start h.host h.mem h.mem' o.hs o.hs'
  have hcalls : (StoredLink.start o.ip o.port o.cid o.sid o.mem o.mem' o.hs o.hs').client.calls =
      [.sendTo (getStr o.ip o.port)] := rfl
  have hup : (StoredLink.start o.ip o.port o.cid o.sid o.mem o.mem' o.hs o.hs').up =
      Link.wireOf [.sendTo (getStr o.ip o.port)] := rfl
  have hdown : (StoredLink.start o.ip o.port o.cid o.sid o.mem o.mem' o.hs o.hs').down = [] := rfl
  have hlen : (getStr o.ip o.port).length ≤ 2 ^ 30 := h.short.trans (by decide)
  unfold start
  generalize StoredLink.start o.ip o.port o.cid o.sid o.mem o.mem' o.hs o.hs' = l
    at hstored hcalls hup hdown ⊢
  generalize getStr o.ip o.port = request at hcalls hup hlen
  obtain ⟨out, hrun, hhands⟩ := hands_request o.cid o.fd 0 h.mem h.found hlen
  dsimp only
  rw [hcalls, hrun]
  refine ⟨⟨hhands.queues, hhands.connect, Nat.zero_le _⟩,
    ⟨Session.create_queues o.sid o.fd' .accept 0 h.mem', rfl, Nat.zero_le _⟩, ?_⟩
  have hpushed : out.session.pushed = l.up := by
    rw [hhands.pushed, hup]
    simp [Link.wireOf, Outgoing.start, Session.create]
  have hwhole : WiredLink.whole ⟨⟨l.client, out, 0⟩, ⟨l.server,
      Outgoing.start (Session.create o.sid o.fd' .accept 0 o.mem') false, 0⟩⟩ = l := by
    unfold WiredLink.whole WiredEnd.behind
    dsimp only
    rw [hpushed, List.drop_zero, List.drop_zero]
    obtain ⟨client, server, up, down⟩ := l
    cases hdown
    rfl
  exact hwhole ▸ hstored

/-- The first `recv` of the server fits. -/
theorem start_legal (o : Opening) {n : Nat} {mem : Alloc} (hmem : mem.ok = true)
    {hs : Handshake} {answers : List MsgAnswer} (hfound : Outgoing.Found answers) :
    WiredLink.Legal (.toServer n mem hs answers) o.start := by
  refine ⟨WsStored.recv_fits hmem fun c hc => ?_, hfound, Nat.zero_le _⟩
  cases hc
  exact ⟨Nat.zero_le _, show bufferSize ≤ 2 ^ 30 by decide⟩

end Opening

/-- **Whatever `send` and `recv` take at a time on either side, nothing fails, neither side closes
the connection, and either hands on the other's messages: each once, whole, in order; and all of
them once nothing is queued or on its way.** -/
theorem wired_link_follows {o : Opening} (h : o.Plain) (events : List WiredEvent)
    (hlegal : Refine.Allowed WiredLink.exec WiredLink.Legal o.start events) :
    ∃ calls l c, Refine.run WiredLink.exec o.start events = .ok (calls, l) ∧
      Refine.Follows WiredEvent.Step Conversation.start events calls c ∧
      (Quiet l → c.up.received = c.up.sent ∧ c.down.received = c.down.sent) := by
  obtain ⟨calls, l, c, hrun, hfollows, hwired⟩ :=
    Refine.run_follows (wired_simulates h.host h.short) (Opening.start_wired h) hlegal
  exact ⟨calls, l, c, hrun, hfollows, hwired.quiet⟩

theorem plain_local : PlainHost (ascii "127.0.0.1") 9001 ∧
    (getStr (ascii "127.0.0.1") 9001).length ≤ bufferMaxSize := by
  have hvalues : (hostValue (ascii "127.0.0.1") 9001).length % 256 ≠ 0 ∧
      (getStr (ascii "127.0.0.1") 9001).length ≤ bufferMaxSize := by
    decide +kernel
  exact ⟨⟨by decide, by decide, hvalues.1⟩, hvalues.2⟩

/-- The request goes out in two pieces, and 20 bytes of the first come in before the second. -/
theorem wired_link_follows_local :
    let mem : Alloc := ⟨true, fun _ => 0⟩
    let o : Opening := ⟨ascii "127.0.0.1", 9001, 4, 5, 8, 9, mem, mem, nullHandshake, nullHandshake,
      [⟨mem, .accepted 100⟩]⟩
    let events := [.toServer 20 mem nullHandshake [], .clientWritable (.accepted 1000)]
    ∃ calls l c, Refine.run WiredLink.exec o.start events = .ok (calls, l) ∧
      Refine.Follows WiredEvent.Step Conversation.start events calls c ∧
      (Quiet l → c.up.received = c.up.sent ∧ c.down.received = c.down.sent) := by
  intro mem o events
  have hplain : o.Plain :=
    ⟨plain_local.1, plain_local.2, rfl, rfl, by simp [Outgoing.Found, o, mem]⟩
  apply wired_link_follows hplain
  clear_value o
  have hnone : Outgoing.Found [] := by simp [Outgoing.Found]
  refine ⟨Opening.start_legal _ rfl hnone, fun _ _ _ => ⟨?_, fun _ _ _ => trivial⟩⟩
  exact fun h => nomatch h

end WebSocketPoller

end ChainSocket
