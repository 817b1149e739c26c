import ChainSocket.WebSocket.Link
import ChainSocket.WebSocket.Reading

/-!
# A connection between two WebSocketPollers, with their buffers

The connection of `Link` where either side reads into its block: `recv` takes what is on its way
as far as there is room, and `handleReadEvent` goes by the read limit.

* `StoredLink.exec_link`: a step is a step of `Link`, with what the block has behind its data;
* `stored_simulates`: so it is a pair of first-in, first-out channels of messages.
-/

namespace ChainSocket

open CString Effect WebSocketPoller

/-- `onConnect`, as far as the messages go. -/
def StoredPoller.onConnect (ip : List UInt8) (port : Int) : StoredM Unit := do
  call (.sendTo (getStr ip port))
  let c ← conn
  setConn { c with userData := .handshakeReq }

structure StoredLink where
  client : WsStored
  server : WsStored
  up : List UInt8
  down : List UInt8

inductive StoredLinkEvent where
  | clientSends (msg : List UInt8)
  | serverSends (msg : List UInt8)
  /-- `recv` takes up to `n` bytes; other sessions have left `hs` in the record. -/
  | toServer (n : Nat) (mem : Alloc) (hs : Handshake)
  | toClient (n : Nat) (mem : Alloc) (hs : Handshake)

/-- What a message is to the connection, whatever the memory. -/
def StoredLinkEvent.listed : StoredLinkEvent → LinkEvent
  | .clientSends msg => .clientSends msg
  | .serverSends msg => .serverSends msg
  | .toServer n _ hs => .toServer n [] hs
  | .toClient n _ hs => .toClient n [] hs

/-- The length that `recv` is told. -/
def WsStored.room (s : WsStored) : Nat :=
  (s.conn.map fun c => c.readBuffer.capacity - c.readBuffer.size).getD 0

/-- The answer of `recv`, with up to `n` bytes of `wire`: without room it is 0. -/
def WsStored.recv (s : WsStored) (n : Nat) (wire : List UInt8) : RecvResult :=
  if s.room = 0 then .received []
  else if wire.take (min n s.room) = [] then .eagain
  else .received (wire.take (min n s.room))

namespace StoredLink

/-- A readable event, with the calls it makes. -/
def receives (s : WsStored) (r : RecvResult) (mem : Alloc) (hs : Handshake) :
    Except Fault (List WsCall × WsStored) :=
  match s.conn, r with
  | none, _ | some _, .eagain => .ok ([], s)
  | some c, r =>
    let fuel := c.readBuffer.size + (match r with | .received chunk => chunk.length | _ => 0) + 1
    match (StoredPoller.readShared .idle fuel (hs, ⟨r, mem⟩)).run s with
    | .error e _ => .error e
    | .ok _ s' => .ok (s'.calls.drop s.calls.length, s')

def exec : StoredLinkEvent → StoredLink → Except Fault (List WsCall × StoredLink)
  | .clientSends msg, l => do
    let (bufs, _) ← sendMsg true msg
    return ([], { l with up := l.up ++ bufs.flatten })
  | .serverSends msg, l => do
    let (bufs, _) ← sendMsg false msg
    return ([], { l with down := l.down ++ bufs.flatten })
  | .toServer n mem hs, l => do
    let (calls, server) ← receives l.server (l.server.recv n l.up) mem hs
    return (calls, { l with
      server
      up := l.up.drop (min n l.server.room)
      down := l.down ++ Link.wireOf calls })
  | .toClient n mem hs, l => do
    let (calls, client) ← receives l.client (l.client.recv n l.down) mem hs
    return (calls, { l with
      client
      down := l.down.drop (min n l.client.room)
      up := l.up ++ Link.wireOf calls })

/-- `sendMsg` is called as in `Link.Legal`; `realloc` finds a block, whose size is an `int`. -/
def Legal : StoredLinkEvent → StoredLink → Prop
  | .clientSends msg, _ => msg.length ≤ 0xFFFF
  | .serverSends msg, l =>
    msg.length ≤ 0xFFFF ∧ l.server.conn.map (fun c => c.userData) = some .frame
  | .toServer n mem hs, l => StoredPoller.Fits (hs, ⟨l.server.recv n l.up, mem⟩) l.server
  | .toClient n mem hs, l => StoredPoller.Fits (hs, ⟨l.client.recv n l.down, mem⟩) l.client

/-- Behind `onConnect` and `onAccept`. -/
def start (ip : List UInt8) (port : Int) (cid sid : Nat) (mem mem' : Alloc)
    (hs hs' : Handshake) : StoredLink :=
  let client := final ((StoredPoller.onConnect ip port).run
    ⟨hs, some (.create cid .handshakeWait mem bufferMaxSize), []⟩)
  ⟨client, ⟨hs', some (.create sid .handshakeWait mem' bufferMaxSize), []⟩,
    Link.wireOf client.calls, []⟩

end StoredLink

/-- `recv` keeps to the length it is told. -/
theorem WsStored.recv_fits {s : WsStored} {n : Nat} {wire : List UInt8} {mem : Alloc}
    {hs : Handshake} (hmem : mem.ok = true)
    (hroom : ∀ c, s.conn = some c →
      c.readBuffer.size ≤ c.readBuffer.capacity ∧ c.readBuffer.capacity ≤ 2 ^ 30) :
    StoredPoller.Fits (hs, ⟨s.recv n wire, mem⟩) s := by
  intro c bytes hc _ hrecv hne
  have hlen : bytes.length ≤ s.room := by
    dsimp only at hrecv
    unfold WsStored.recv at hrecv
    split_ifs at hrecv
    · cases hrecv
      exact Nat.zero_le _
    · cases hrecv
      rw [List.length_take]
      omega
  have hwhole : s.room = c.readBuffer.capacity - c.readBuffer.size := by
    unfold WsStored.room
    rw [hc]
    rfl
  obtain ⟨hsize, hcapacity⟩ := hroom c hc
  rw [hwhole] at hlen
  refine ⟨hmem, by omega, fun _ => ?_⟩
  unfold MessageBuffer.roundUp bufferSize intMax
  omega

/-! ## What a side holds -/

theorem Unsupported.append {s : List UInt8} (h : Unsupported s) (t : List UInt8) :
    Unsupported (s ++ t) := by
  obtain ⟨⟨two, extensions, final⟩, opcode⟩ := h
  have hfirst : (s ++ t).getD 0 0 = s.getD 0 0 := by
    cases s with
    | nil => simp at two
    | cons b s => rfl
  refine ⟨⟨?_, ?_, ?_⟩, ?_⟩
  · rw [List.length_append]
    omega
  · rwa [hfirst]
  · rwa [hfirst]
  · have hopcode : (frameHead (s ++ t)).opcode = (frameHead s).opcode := by
      simp only [frameHead, hfirst]
    rwa [hopcode]

namespace WebSocketPoller

/-- A side has no more in its buffer than its greeting, or a part of one frame. -/
theorem Carries.short {d : Side} {isConnect said opened : Bool} {c : Fifo (List UInt8)}
    {s : WsState} {more : List UInt8} (hd : d.Greets)
    (h : Carries d isConnect said opened c s more) {m : Nat} (hgreeting : d.greeting.length ≤ m)
    (hm : 65543 ≤ m) {c' : WsSession} (hc : s.conn = some c') : c'.readBuffer.length ≤ m := by
  obtain ⟨got, wire, hat, hframed, hgot⟩ := h
  generalize c.received = msgs at hat
  cases hat with
  | waits hs part _ =>
    cases hc
    exact part.length_le.trans hgreeting
  | @frames hs w rest _ split run =>
    cases hc
    have hleave : frameStep rest = .leave := by
      have hends : (frameRun w).ending = .left rest := by rw [run]
      obtain ⟨-, -, -, hleave⟩ := frameRun_left hends
      exact hleave
    cases frameStep_leave_iff.mp hleave with
    | inl hresidue => exact hresidue.length_lt.le.trans hm
    | inr hunsupported =>
      -- the frames on the wire have been made by `sendMsg`
      exfalso
      cases said with
      | false =>
        rw [if_neg Bool.false_ne_true, split] at hgot
        simp only [List.append_eq_nil_iff] at hgot
        exact hd.filled hgot.1.1
      | true =>
        rw [if_pos rfl, split, List.append_assoc, List.append_cancel_left_eq] at hgot
        have hwhole := hframed.run
        rw [← hgot, frameRun_behind run, frameRun_leave (hunsupported.append more).leaves,
          FrameRun.mk.injEq] at hwhole
        have htwo := hunsupported.plain.two
        have hnil : rest ++ more = [] := by
          injection hwhole.2
        rw [List.append_eq_nil_iff] at hnil
        simp [hnil.1] at htwo

end WebSocketPoller

/-! ## A step of the connection -/

/-- The two sides with lists for their buffers. -/
structure Lists (m : Nat) (l : StoredLink) (l' : Link) : Prop where
  client : Stores m l.client l'.client
  server : Stores m l.server l'.server
  up : l.up = l'.up
  down : l.down = l'.down

namespace StoredLink

variable {m : Nat}

theorem receives_reads {hs₀ hs : Handshake} {c' : WsSession} {calls : List WsCall}
    {chunk : List UInt8} (hchunk : chunk ≠ []) (hshort : c'.readBuffer.length ≤ m) (mem : Alloc)
    (behind : List UInt8) : Link.receives ⟨hs₀, some c', calls⟩ chunk behind hs =
      match (readsShared .idle (c'.readBuffer.length + chunk.length + 1) m
        ((hs, ⟨.received chunk, mem⟩), behind)).run ⟨hs₀, some c', calls⟩ with
      | .error e _ => .error e
      | .ok _ t' => .ok (t'.calls.drop calls.length, t') := by
  cases chunk with
  | nil => exact absurd rfl hchunk
  | cons byte bytes =>
    have hmodify : (modify fun s => { s with hs := hs } : WsM Unit).run
        ⟨hs₀, some c', calls⟩ = .ok () ⟨hs, some c', calls⟩ := rfl
    unfold Link.receives readsShared reads
    rw [run_bind_ok hmodify, run_bind_ok (run_get _)]
    dsimp only
    rw [if_neg (Nat.not_lt.mpr hshort), if_neg hchunk]
    rfl

/-- What one side makes of a readable event, as in `Link`. -/
theorem receives_stored {s : WsStored} {t : WsState} (hst : Stores m s t) {n : Nat}
    {wire : List UInt8} {mem : Alloc} {hs : Handshake}
    (hfits : StoredPoller.Fits (hs, ⟨s.recv n wire, mem⟩) s)
    (hshort : ∀ c', t.conn = some c' → c'.readBuffer.length ≤ m) : ∃ behind,
      ∀ calls t', Link.receives t (wire.take (min n s.room)) behind hs = .ok (calls, t') →
        ∃ s', receives s (s.recv n wire) mem hs = .ok (calls, s') ∧ Stores m s' t' := by
  have hst' := hst
  cases hst with
  | @closed hs₀ calls₀ =>
    refine ⟨[], fun calls t' h => ?_⟩
    have hroom : WsStored.room ⟨hs₀, none, calls₀⟩ = 0 := rfl
    rw [hroom, Nat.min_zero, List.take_zero] at h
    cases h
    exact ⟨_, rfl, hst'⟩
  | @opened hs₀ calls₀ c c' holds =>
    have hroom : WsStored.room ⟨hs₀, some c, calls₀⟩ ≠ 0 := by
      have hroomy := holds.buffer.roomy
      change c.readBuffer.capacity - c.readBuffer.size ≠ 0
      unfold MessageBuffer.Roomy bufferSize at hroomy
      omega
    by_cases hchunk : wire.take (min n (WsStored.room ⟨hs₀, some c, calls₀⟩)) = []
    · have hrecv : WsStored.recv ⟨hs₀, some c, calls₀⟩ n wire = .eagain := by
        unfold WsStored.recv
        rw [if_neg hroom, if_pos hchunk]
      refine ⟨[], fun calls t' h => ?_⟩
      rw [hchunk] at h
      cases h
      rw [hrecv]
      exact ⟨_, rfl, hst'⟩
    · have hrecv : WsStored.recv ⟨hs₀, some c, calls₀⟩ n wire =
          .received (wire.take (min n (WsStored.room ⟨hs₀, some c, calls₀⟩))) := by
        unfold WsStored.recv
        rw [if_neg hroom, if_neg hchunk]
      rw [hrecv] at hfits ⊢
      generalize wire.take _ = chunk at hchunk hfits ⊢
      obtain ⟨behind, halike⟩ : ∃ behind, Alike (Same (Stores m))
          ((StoredPoller.readShared .idle (c.readBuffer.size + chunk.length + 1)
            (hs, ⟨.received chunk, mem⟩)).run ⟨hs₀, some c, calls₀⟩)
          ((readsShared .idle (c.readBuffer.size + chunk.length + 1) m
            ((hs, ⟨.received chunk, mem⟩), behind)).run ⟨hs₀, some c', calls₀⟩) :=
        StoredPoller.readShared_reads hst' hfits
      refine ⟨behind, fun calls t' h => ?_⟩
      rw [receives_reads hchunk (hshort c' rfl) mem, ← holds.size] at h
      unfold receives
      dsimp only
      generalize (StoredPoller.readShared _ _ _).run _ = r at halike ⊢
      generalize (readsShared _ _ _ _).run _ = r' at halike h
      cases halike with
      | error => cases h
      | @ok _ _ s' t'' related =>
        cases h
        have hcalls : s'.calls = t'.calls := by
          cases related.2 with
          | opened | closed => rfl
        exact ⟨s', by simp only [hcalls], related.2⟩

/-- A step is one of `Link`, with some bytes behind the data. -/
theorem exec_link {l : StoredLink} {l' : Link} (hl : Lists m l l') {e : StoredLinkEvent}
    (hlegal : Legal e l)
    (hclient : ∀ c', l'.client.conn = some c' → c'.readBuffer.length ≤ m)
    (hserver : ∀ c', l'.server.conn = some c' → c'.readBuffer.length ≤ m) :
    ∃ e' : LinkEvent, (∀ c r c', Conversation.Step e' c r c' ↔ Conversation.Step e.listed c r c') ∧
      Link.Legal e' l' ∧ ∀ r l₁', Link.exec e' l' = .ok (r, l₁') →
        ∃ l₁, exec e l = .ok (r, l₁) ∧ Lists m l₁ l₁' := by
  obtain ⟨client, server, up, down⟩ := l
  obtain ⟨hstc, hsts, rfl, rfl⟩ := hl
  cases e with
  | clientSends msg =>
    refine ⟨.clientSends msg, fun _ _ _ => .rfl, hlegal, fun r l₁' h => ?_⟩
    obtain ⟨⟨bufs, left⟩, hsend, hret⟩ := except_bind_inv h
    cases hret
    refine ⟨⟨client, server, l'.up ++ bufs.flatten, l'.down⟩, ?_, hstc, hsts, rfl, rfl⟩
    simp only [exec, hsend]
    rfl
  | serverSends msg =>
    have hphase : l'.server.conn.map (fun c => c.userData) = some .frame := by
      rw [← hlegal.2]
      generalize hserver' : l'.server = t at hsts
      cases hsts with
      | opened holds => exact congrArg some holds.userData.symm
      | closed => rfl
    refine ⟨.serverSends msg, fun _ _ _ => .rfl, ⟨hlegal.1, hphase⟩, fun r l₁' h => ?_⟩
    obtain ⟨⟨bufs, left⟩, hsend, hret⟩ := except_bind_inv h
    cases hret
    refine ⟨⟨client, server, l'.up, l'.down ++ bufs.flatten⟩, ?_, hstc, hsts, rfl, rfl⟩
    simp only [exec, hsend]
    rfl
  | toServer n mem hs =>
    obtain ⟨behind, hreceives⟩ := receives_stored hsts hlegal hserver
    refine ⟨.toServer (min n server.room) behind hs, fun _ _ _ => .rfl, trivial, fun r l₁' h => ?_⟩
    obtain ⟨⟨calls, t⟩, hrecv, hret⟩ := except_bind_inv h
    cases hret
    obtain ⟨s, hs, hst⟩ := hreceives _ _ hrecv
    refine ⟨⟨client, s, l'.up.drop (min n server.room), l'.down ++ Link.wireOf r⟩, ?_, hstc,
      hst, rfl, rfl⟩
    simp only [exec, hs]
    rfl
  | toClient n mem hs =>
    obtain ⟨behind, hreceives⟩ := receives_stored hstc hlegal hclient
    refine ⟨.toClient (min n client.room) behind hs, fun _ _ _ => .rfl, trivial, fun r l₁' h => ?_⟩
    obtain ⟨⟨calls, t⟩, hrecv, hret⟩ := except_bind_inv h
    cases hret
    obtain ⟨s, hs, hst⟩ := hreceives _ _ hrecv
    refine ⟨⟨s, server, l'.up ++ Link.wireOf r, l'.down.drop (min n client.room)⟩, ?_, hst, hsts,
      rfl, rfl⟩
    simp only [exec, hs]
    rfl

end StoredLink

namespace WebSocketPoller

variable {ip : List UInt8} {port : Int} {cid sid : Nat}

theorem length_clientReply : clientReply.length = 129 := by
  have hvalue : (acceptValue clientKey).length = 28 := by
    rw [acceptValue, Base64.length_encode]
    simp [Fips180.sha1]
  have hstatus : (ascii "HTTP/1.1 101 Switching Protocols\r\n").length = 34 := rfl
  have hupgrade : (Field.upgrade.name ++ websocket).length = 18 := rfl
  have hconnection : (Field.connection.name ++ upgrade2).length = 19 := rfl
  have haccept : (ascii "Sec-WebSocket-Accept: ").length = 22 := rfl
  rw [List.length_append] at hupgrade hconnection
  simp only [clientReply, replyWith, List.length_append, hvalue, hstatus, haccept, length_rn]
  omega

/-- A connection over lists that has come as far as its conversation stands for this one. -/
def Stored (ip : List UInt8) (port : Int) (cid sid : Nat) (l : StoredLink) (c : Conversation) :
    Prop :=
  ∃ l', Lists bufferMaxSize l l' ∧ Coupled (clientSide ip port cid) (serverSide ip port sid) l' c

theorem stored_simulates (h : PlainHost ip port)
    (hlong : (getStr ip port).length ≤ bufferMaxSize) :
    Refine.Simulates StoredLink.exec StoredLink.Legal (fun e => Conversation.Step e.listed)
      (Stored ip port cid sid) := by
  rintro e l c ⟨l', hlists, hl⟩ hlegal
  have hlimit : 65543 ≤ bufferMaxSize := by decide
  have hreply : clientReply.length ≤ bufferMaxSize := by
    rw [length_clientReply]
    decide
  obtain ⟨e', hstep, hlegal', hexec⟩ := StoredLink.exec_link hlists hlegal
    (fun c' hc => hl.client.short (clientSide_greets ip port cid) hreply hlimit hc)
    (fun c' hc => hl.server.short (serverSide_greets h sid) hlong hlimit hc)
  obtain ⟨r, l₁', c', hrun, hspec, hl'⟩ := link_simulates h e' l' c hl hlegal'
  obtain ⟨l₁, hrun₁, hlists₁⟩ := hexec r l₁' hrun
  exact ⟨r, l₁, c', hrun₁, (hstep c r c').mp hspec, l₁', hlists₁, hl'⟩

theorem stored_start (h : PlainHost ip port) {mem mem' : Alloc} (hmem : mem.ok = true)
    (hmem' : mem'.ok = true) (hs hs' : Handshake) :
    Stored ip port cid sid (StoredLink.start ip port cid sid mem mem' hs hs')
      Conversation.start := by
  refine ⟨Link.start ip port cid sid hs hs', ⟨?_, ?_, rfl, rfl⟩, start_coupled h hs hs'⟩
  · exact .opened (WsConn.create_holds hmem)
  · exact .opened (WsConn.create_holds hmem')

end WebSocketPoller

end ChainSocket
