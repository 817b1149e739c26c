import ChainSocket.Lib.Fifo
import ChainSocket.Lib.Refine
import ChainSocket.WebSocket.Request
import ChainSocket.WebSocket.Sending

/-!
# A connection between two WebSocketPollers

The client has been through `onConnect` and the server through `onAccept`. What either hands to
`sendTo` is on its way to the other, whose `recv` takes as much of it at a time as it happens to.

* `Side.receive`: what one `recv` makes of a side, from all the bytes it has had;
* `link_follows`: the connection is a pair of first-in, first-out channels of messages;
* `link_settles`: once nothing is on its way, every message has been handed on.
-/

namespace ChainSocket

open CString Effect WebSocketPoller

/-- `onConnect`, as far as the messages go. -/
def WebSocketPoller.onConnect (ip : List UInt8) (port : Int) : WsM Unit := do
  call (.sendTo (getStr ip port))
  let c ← conn
  setConn { c with userData := .handshakeReq }

/-- The two ends of a connection, and the bytes on their way to either. -/
structure Link where
  client : WsState
  server : WsState
  up : List UInt8
  down : List UInt8

inductive LinkEvent where
  | clientSends (msg : List UInt8)
  | serverSends (msg : List UInt8)
  /-- `recv` takes up to `n` bytes; `behind` lies behind the data then, and other sessions have
  left `hs` in the record. -/
  | toServer (n : Nat) (behind : List UInt8) (hs : Handshake)
  | toClient (n : Nat) (behind : List UInt8) (hs : Handshake)

namespace Link

def wireOf (calls : List WsCall) : List UInt8 :=
  calls.flatMap fun
    | .sendTo buf => buf
    | _ => []

/-- A `recv` of `chunk` and the `onRecv` behind it, with the calls it makes. -/
def receives (s : WsState) (chunk behind : List UInt8) (hs : Handshake) :
    Except Fault (List WsCall × WsState) :=
  let buffered := (s.conn.map fun c => c.readBuffer.length).getD 0
  if chunk = [] then .ok ([], s)
  else
    match (receive .idle (buffered + chunk.length + 1) chunk behind).run { s with hs := hs } with
    | .error e _ => .error e
    | .ok _ s' => .ok (s'.calls.drop s.calls.length, s')

def exec : LinkEvent → Link → Except Fault (List WsCall × Link)
  | .clientSends msg, l => do
    let (bufs, _) ← sendMsg true msg
    return ([], { l with up := l.up ++ bufs.flatten })
  | .serverSends msg, l => do
    let (bufs, _) ← sendMsg false msg
    return ([], { l with down := l.down ++ bufs.flatten })
  | .toServer n behind hs, l => do
    let (calls, server) ← receives l.server (l.up.take n) behind hs
    return (calls, { l with server, up := l.up.drop n, down := l.down ++ wireOf calls })
  | .toClient n behind hs, l => do
    let (calls, client) ← receives l.client (l.down.take n) behind hs
    return (calls, { l with client, down := l.down.drop n, up := l.up ++ wireOf calls })

theorem exec_toServer {l : Link} {n : Nat} {behind : List UInt8} {hs : Handshake}
    {calls : List WsCall} {server : WsState}
    (h : receives l.server (l.up.take n) behind hs = .ok (calls, server)) :
    exec (.toServer n behind hs) l =
      .ok (calls, ⟨l.client, server, l.up.drop n, l.down ++ wireOf calls⟩) := by
  simp only [exec, h]
  rfl

theorem exec_toClient {l : Link} {n : Nat} {behind : List UInt8} {hs : Handshake}
    {calls : List WsCall} {client : WsState}
    (h : receives l.client (l.down.take n) behind hs = .ok (calls, client)) :
    exec (.toClient n behind hs) l =
      .ok (calls, ⟨client, l.server, l.up ++ wireOf calls, l.down.drop n⟩) := by
  simp only [exec, h]
  rfl

theorem exec_up {l l' : Link} {n : Nat} {behind : List UInt8} {hs : Handshake}
    {calls : List WsCall} (h : exec (.toServer n behind hs) l = .ok (calls, l')) :
    l'.up = l.up.drop n := by
  obtain ⟨r, hr, hret⟩ := except_bind_inv h
  cases hret
  rfl

theorem exec_down {l l' : Link} {n : Nat} {behind : List UInt8} {hs : Handshake}
    {calls : List WsCall} (h : exec (.toClient n behind hs) l = .ok (calls, l')) :
    l'.down = l.down.drop n ∧ l'.up = l.up ++ wireOf calls := by
  obtain ⟨r, hr, hret⟩ := except_bind_inv h
  cases hret
  exact ⟨rfl, rfl⟩

/-- `sendMsg` is called for messages that it has a length field for, and by the server not before
the handshake. -/
def Legal : LinkEvent → Link → Prop
  | .clientSends msg, _ => msg.length ≤ 0xFFFF
  | .serverSends msg, l =>
    msg.length ≤ 0xFFFF ∧ l.server.conn.map (fun c => c.userData) = some .frame
  | .toServer .., _ | .toClient .., _ => True

/-- Behind `onConnect` and `onAccept`. -/
def start (ip : List UInt8) (port : Int) (cid sid : Nat) (hs hs' : Handshake) : Link :=
  let client := final ((onConnect ip port).run ⟨hs, some ⟨cid, .handshakeWait, []⟩, []⟩)
  ⟨client, ⟨hs', some ⟨sid, .handshakeWait, []⟩, []⟩, wireOf client.calls, []⟩

end Link

/-! ## What a connection is for -/

/-- The messages either way, and whether either side has the handshake behind it. -/
structure Conversation where
  up : Fifo (List UInt8)
  down : Fifo (List UInt8)
  accepted : Bool
  opened : Bool
  order : opened = true → accepted = true
  unheard : accepted = false → up.received = []
  untold : accepted = false → down.sent = []

namespace Conversation

def start : Conversation := ⟨.empty, .empty, false, false, by simp, by simp [Fifo.empty],
  by simp [Fifo.empty]⟩

/-- The calls of a side that hands on `msgs`, with `hello` in front where its handshake ends. -/
def calls (hello : WsCall) (before after : Bool) (msgs : List (List UInt8)) : List WsCall :=
  (if after = before then [] else [hello]) ++ msgs.map .onReadMsg

def Step : LinkEvent → Conversation → List WsCall → Conversation → Prop
  | .clientSends msg, c, r, c' =>
    r = [] ∧ c'.up = c.up.send msg ∧ c'.down = c.down ∧
      c'.accepted = c.accepted ∧ c'.opened = c.opened
  | .serverSends msg, c, r, c' =>
    r = [] ∧ c'.up = c.up ∧ c'.down = c.down.send msg ∧
      c'.accepted = c.accepted ∧ c'.opened = c.opened
  | .toServer .., c, r, c' => ∃ msgs,
    r = calls (.sendTo clientReply) c.accepted c'.accepted msgs ∧ c.up.Delivers msgs c'.up ∧
      c'.down = c.down ∧ c.accepted ≤ c'.accepted ∧ c'.opened = c.opened
  | .toClient .., c, r, c' => ∃ msgs,
    r = calls .onHandShake c.opened c'.opened msgs ∧ c.down.Delivers msgs c'.down ∧
      c'.up = c.up ∧ c'.accepted = c.accepted ∧ c.opened ≤ c'.opened

end Conversation

/-! ## One side -/

theorem frameRun_messages_le (w : List UInt8) : (frameRun w).messages.length ≤ w.length := by
  induction hn : w.length using Nat.strong_induction_on generalizing w with
  | _ n ih =>
    subst hn
    cases hs : frameStep w with
    | leave => simp [frameRun_leave hs]
    | close type => simp [frameRun_close hs]
    | abort => simp [frameRun_abort hs]
    | control k payload =>
      obtain ⟨f, t, hf, rfl, -, -⟩ := frameStep_control hs
      simp [frameRun_control hf]
    | data k payload =>
      obtain ⟨f, t, hf, rfl, -, -⟩ := frameStep_data hs
      have hpos := f.header_pos
      have hlen : (f.bytes ++ t).length = f.header.length + f.payload.length + t.length := by
        rw [List.length_append, f.length_bytes]
      have ht := ih t.length (by omega) t rfl
      rw [frameRun_bytes hf]
      simp only [FrameRun.cons, List.length_cons]
      omega

namespace WebSocketPoller

/-- What a side waits for before the frames, and the call it makes there. -/
structure Side where
  sid : Nat
  phase : WsPhase
  greeting : List UInt8
  hello : WsCall
  /-- The calls made before. -/
  before : List WsCall

/-- The branches in front of the frames wait for all of the greeting. -/
structure Side.Greets (d : Side) : Prop where
  filled : d.greeting ≠ []
  waits : ∀ hs behind fuel buf, buf <+: d.greeting → buf ≠ d.greeting →
    (onRecv .idle behind fuel).run ⟨hs, some ⟨d.sid, d.phase, buf⟩, d.before⟩ =
      .ok 0 ⟨hs, some ⟨d.sid, d.phase, buf⟩, d.before⟩
  opens : ∀ hs behind w, ∃ hs',
    (handshake .idle behind).run ⟨hs, some ⟨d.sid, d.phase, d.greeting ++ w⟩, d.before⟩ =
      .ok (decide (w ≠ [])) ⟨hs', some ⟨d.sid, .frame, w⟩, d.before ++ [d.hello]⟩

/-- Where the bytes `got` have led: to a side that waits, or has handed on `msgs`. -/
inductive Side.At (d : Side) (got : List UInt8) :
    WsState → (opened : Bool) → (msgs : List (List UInt8)) → Prop where
  | waits (hs : Handshake) (part : got <+: d.greeting) (more : got ≠ d.greeting) :
      d.At got ⟨hs, some ⟨d.sid, d.phase, got⟩, d.before⟩ false []
  | frames (hs : Handshake) {w rest : List UInt8} {msgs : List (List UInt8)}
      (split : got = d.greeting ++ w) (run : frameRun w = ⟨msgs, .left rest⟩) :
      d.At got ⟨hs, some ⟨d.sid, .frame, rest⟩,
        d.before ++ [d.hello] ++ msgs.map .onReadMsg⟩ true msgs

/-- The frame loop, with fuel for every message. -/
theorem recvFrames_left {hs : Handshake} {sid : Nat} {buf rest : List UInt8}
    {msgs : List (List UInt8)} (h : frameRun buf = ⟨msgs, .left rest⟩) {fuel : Nat}
    (hfuel : buf.length < fuel) (calls : List WsCall) :
    (recvFrames .idle fuel).run ⟨hs, some ⟨sid, .frame, buf⟩, calls⟩ =
      .ok 0 ⟨hs, some ⟨sid, .frame, rest⟩, calls ++ msgs.map .onReadMsg⟩ := by
  have hle := frameRun_messages_le buf
  have hends := recvFrames_run hs sid .frame buf calls fuel
  rw [h] at hle hends
  dsimp only at hle
  generalize (recvFrames .idle fuel).run ⟨hs, some ⟨sid, .frame, buf⟩, calls⟩ = res at hends
  cases hends with
  | left he => cases he; rfl
  | closed he => cases he
  | aborted he => cases he
  | fuel he =>
    rcases he with he | he
    · cases he
    · exact absurd he (by simp; omega)

theorem Side.Greets.onRecv_opens {d : Side} (h : d.Greets) (hs : Handshake)
    (behind w : List UInt8) {rest : List UInt8} {msgs : List (List UInt8)}
    (hrun : frameRun w = ⟨msgs, .left rest⟩) {fuel : Nat} (hfuel : w.length < fuel) :
    ∃ hs', (onRecv .idle behind fuel).run
        ⟨hs, some ⟨d.sid, d.phase, d.greeting ++ w⟩, d.before⟩ =
      .ok 0 ⟨hs', some ⟨d.sid, .frame, rest⟩, d.before ++ [d.hello] ++ msgs.map .onReadMsg⟩ := by
  obtain ⟨hs', hopens⟩ := h.opens hs behind w
  refine ⟨hs', ?_⟩
  rw [onRecv_frames hopens]
  split_ifs with hnil
  · subst hnil
    rw [frameRun_nil] at hrun
    cases hrun
    simp
  · exact recvFrames_left hrun hfuel _

theorem frameRun_behind {w rest : List UInt8} {msgs : List (List UInt8)}
    (h : frameRun w = ⟨msgs, .left rest⟩) (t : List UInt8) :
    frameRun (w ++ t) =
      ⟨msgs ++ (frameRun (rest ++ t)).messages, (frameRun (rest ++ t)).ending⟩ := by
  rw [frameRun_append, h]

theorem frameRun_part {w t : List UInt8} {sent : List (List UInt8)}
    (h : frameRun (w ++ t) = ⟨sent, .left []⟩) :
    ∃ msgs rest, frameRun w = ⟨msgs, .left rest⟩ ∧ msgs <+: sent := by
  obtain ⟨msgs, rest, hw, -⟩ := left_of_append (w := w) (t := t) (by rw [h])
  rw [frameRun_behind hw, FrameRun.mk.injEq] at h
  exact ⟨msgs, rest, hw, h.1 ▸ List.prefix_append ..⟩

theorem receives_run {hs₀ hs : Handshake} {sid : Nat} {phase : WsPhase} {buf chunk : List UInt8}
    {behind : List UInt8} {calls new : List WsCall} {s : WsState} (hchunk : chunk ≠ [])
    (h : (onRecv .idle behind (buf.length + chunk.length + 1)).run
      ⟨hs, some ⟨sid, phase, buf ++ chunk⟩, calls⟩ = .ok 0 s)
    (hnew : s.calls = calls ++ new) :
    Link.receives ⟨hs₀, some ⟨sid, phase, buf⟩, calls⟩ chunk behind hs = .ok (new, s) := by
  unfold Link.receives
  simp only [if_neg hchunk, Option.map_some, Option.getD_some, receive_run, h, hnew,
    List.drop_left]

variable {d : Side}

theorem Side.At.received {got more wire : List UInt8} {s : WsState} {opened : Bool}
    {msgs sent : List (List UInt8)} (hat : d.At got s opened msgs)
    (hgot : got ++ more = d.greeting ++ wire) (hwire : frameRun wire = ⟨sent, .left []⟩) :
    msgs <+: sent := by
  cases hat with
  | waits => exact List.nil_prefix
  | frames hs split run =>
    rw [split, List.append_assoc, List.append_cancel_left_eq] at hgot
    rw [← hgot] at hwire
    obtain ⟨msgs₁, rest₁, hrun, hpre⟩ := frameRun_part hwire
    rw [run] at hrun
    cases hrun
    exact hpre

/-- The greeting comes to its end. -/
theorem Side.receive_opens (hd : d.Greets) {got chunk more wire w : List UInt8}
    {sent : List (List UInt8)} (hs₀ : Handshake) (hsplit : got ++ chunk = d.greeting ++ w)
    (hgot : got ++ chunk ++ more = d.greeting ++ wire)
    (hwire : frameRun wire = ⟨sent, .left []⟩) (hchunk : chunk ≠ []) (behind : List UInt8)
    (hs : Handshake) :
    ∃ s' msgs, d.At (got ++ chunk) s' true msgs ∧
      Link.receives ⟨hs₀, some ⟨d.sid, d.phase, got⟩, d.before⟩ chunk behind hs =
        .ok (d.hello :: msgs.map .onReadMsg, s') := by
  have hcut : w ++ more = wire := by
    rw [hsplit, List.append_assoc, List.append_cancel_left_eq] at hgot
    exact hgot
  rw [← hcut] at hwire
  obtain ⟨msgs, rest, hrun, -⟩ := frameRun_part hwire
  have hlen := congrArg List.length hsplit
  simp only [List.length_append] at hlen
  have hfuel : w.length < got.length + chunk.length + 1 := by omega
  obtain ⟨hs', hrecv⟩ := hd.onRecv_opens hs behind w hrun hfuel
  rw [← hsplit] at hrecv
  exact ⟨_, msgs, .frames hs' hsplit hrun, receives_run hchunk hrecv (by simp)⟩

theorem Side.receive_frames {w rest chunk t : List UInt8} {msgs sent : List (List UInt8)}
    (hs₀ : Handshake) (run : frameRun w = ⟨msgs, .left rest⟩)
    (hwire : frameRun (w ++ chunk ++ t) = ⟨sent, .left []⟩) (hchunk : chunk ≠ [])
    (behind : List UInt8) (hs : Handshake) :
    ∃ s' msgs', d.At (d.greeting ++ w ++ chunk) s' true (msgs ++ msgs') ∧
      Link.receives ⟨hs₀, some ⟨d.sid, .frame, rest⟩,
          d.before ++ [d.hello] ++ msgs.map .onReadMsg⟩ chunk behind hs =
        .ok (msgs'.map .onReadMsg, s') := by
  obtain ⟨msgs₁, rest₁, hrun, -⟩ := frameRun_part hwire
  have happ := frameRun_behind run chunk
  rw [hrun] at happ
  cases hnext : frameRun (rest ++ chunk) with
  | mk msgs' ending =>
    rw [hnext] at happ
    cases happ
    have hrecv : (onRecv .idle behind (rest.length + chunk.length + 1)).run
        ⟨hs, some ⟨d.sid, .frame, rest ++ chunk⟩,
          d.before ++ [d.hello] ++ msgs.map .onReadMsg⟩ =
        .ok 0 ⟨hs, some ⟨d.sid, .frame, rest₁⟩,
          d.before ++ [d.hello] ++ msgs.map .onReadMsg ++ msgs'.map .onReadMsg⟩ := by
      rw [onRecv_frame]
      exact recvFrames_left hnext (by simp) _
    refine ⟨_, msgs', .frames hs (List.append_assoc ..) hrun, ?_⟩
    rw [receives_run hchunk hrecv rfl]
    simp

/-- What comes in next: the rest of the greeting and of the frames of `sent`. -/
theorem Side.receive (hd : d.Greets) {got chunk more wire : List UInt8} {s : WsState}
    {opened : Bool} {msgs sent : List (List UInt8)} (hat : d.At got s opened msgs)
    (hgot : got ++ chunk ++ more = d.greeting ++ wire) (hwire : frameRun wire = ⟨sent, .left []⟩)
    (behind : List UInt8) (hs : Handshake) :
    ∃ s' opened' msgs', d.At (got ++ chunk) s' opened' (msgs ++ msgs') ∧
      Link.receives s chunk behind hs =
        .ok (Conversation.calls d.hello opened opened' msgs', s') ∧ opened ≤ opened' := by
  by_cases hchunk : chunk = []
  · subst hchunk
    refine ⟨s, opened, [], by simpa using hat, ?_, le_refl _⟩
    simp [Link.receives, Conversation.calls]
  cases hat with
  | waits hs₀ part more =>
    by_cases hwhole : d.greeting <+: got ++ chunk
    · obtain ⟨w, hw⟩ := hwhole
      obtain ⟨s', msgs', hat', hrecv⟩ := Side.receive_opens hd hs₀ hw.symm hgot hwire hchunk
        behind hs
      exact ⟨s', true, msgs', hat', hrecv, by decide⟩
    · have hpart : got ++ chunk <+: d.greeting := by
        have hpre : got ++ chunk <+: d.greeting ++ wire := ⟨_, hgot⟩
        exact (List.prefix_or_prefix_of_prefix hpre (List.prefix_append ..)).resolve_right hwhole
      have hmore : got ++ chunk ≠ d.greeting := fun h => hwhole ⟨[], by simp [h]⟩
      have hrecv := hd.waits hs behind (got.length + chunk.length + 1) _ hpart hmore
      refine ⟨_, false, [], .waits hs hpart hmore, ?_, le_refl _⟩
      exact receives_run hchunk hrecv (by simp [Conversation.calls])
  | @frames hs₀ w rest _ split run =>
    rw [split, List.append_assoc, List.append_assoc, List.append_cancel_left_eq,
      ← List.append_assoc] at hgot
    rw [← hgot] at hwire
    obtain ⟨s', msgs', hat', hrecv⟩ := Side.receive_frames (d := d) hs₀ run hwire hchunk behind hs
    rw [← split] at hat'
    exact ⟨s', true, msgs', hat', hrecv, le_refl _⟩

/-! ## The two handshakes -/

theorem handshake_server (hs : Handshake) (sid : Nat) (behind buf : List UInt8)
    (calls : List WsCall) :
    (handshake .idle behind).run ⟨hs, some ⟨sid, .handshakeWait, buf⟩, calls⟩ =
      (serverHandshake behind).run ⟨hs, some ⟨sid, .handshakeWait, buf⟩, calls⟩ := rfl

theorem handshake_client (hs : Handshake) (sid : Nat) (behind buf : List UInt8)
    (calls : List WsCall) :
    (handshake .idle behind).run ⟨hs, some ⟨sid, .handshakeReq, buf⟩, calls⟩ =
      (clientHandshake .idle).run ⟨hs, some ⟨sid, .handshakeReq, buf⟩, calls⟩ := rfl

/-- A block that ends with the first blank line in it. -/
structure Block (block : List UInt8) : Prop where
  long : 13 ≤ block.length
  found : ∀ t, memstr (rn ++ rn) (block ++ t) = some (block.length - 4)

theorem Block.unfinished {block buf : List UInt8} (h : Block block) (hpart : buf <+: block)
    (hne : buf ≠ block) : memstr (rn ++ rn) buf = none := by
  obtain ⟨t, rfl⟩ := hpart
  have hwhole := h.found []
  have hlong := h.long
  rw [List.append_nil] at hwhole
  refine memstr_unfinished hwhole ?_ fun hnil => hne (by simp [hnil])
  have hblank : (rn ++ rn).length = 4 := rfl
  omega

theorem Block.filled {block : List UInt8} (h : Block block) : block ≠ [] := by
  rintro rfl
  exact absurd h.long (by decide)

theorem Block.behind {block : List UInt8} (h : Block block) (w : List UInt8) :
    (block ++ w).drop (block.length - 4 + 4) = w := by
  have hlong := h.long
  rw [Nat.sub_add_cancel (by omega), List.drop_left]

theorem server_greets {u request reply : List UInt8} (hblock : Block request)
    (hsplit : request = u ++ rn ++ rn) (haccepts : ∀ hs, ∃ hs', Accepts hs u hs' reply)
    (sid : Nat) : Side.Greets ⟨sid, .handshakeWait, request, .sendTo reply, []⟩ := by
  refine ⟨hblock.filled, ?_, ?_⟩
  · intro hs behind fuel buf hpart hne
    have hwaits : (handshake .idle behind).run ⟨hs, some ⟨sid, .handshakeWait, buf⟩, []⟩ =
        .ok true ⟨hs, some ⟨sid, .handshakeWait, buf⟩, []⟩ := by
      rw [handshake_server, serverHandshake_run, hblock.unfinished hpart hne]
    unfold onRecv
    rw [run_bind_ok hwaits]
    rfl
  · intro hs behind w
    obtain ⟨hs', hparse, key, hkey, hreply⟩ := haccepts hs
    have hpos : request.length - 4 = u.length := by simp [hsplit, length_rn]
    have hmem : request ++ w ++ behind = u ++ rn ++ (rn ++ w ++ behind) := by
      simp [hsplit]
    have hdrop := hblock.behind w
    rw [hpos] at hdrop
    refine ⟨hs', ?_⟩
    rw [handshake_server, serverHandshake_run, hblock.found, hpos]
    dsimp only
    rw [hmem, hparse]
    simp [hkey, hreply, hdrop]

theorem client_greets {request reply : List UInt8} (hblock : Block reply)
    (hhttp : ∀ t, memstr (ascii "HTTP") (reply ++ t) ≠ none) (cid : Nat) :
    Side.Greets ⟨cid, .handshakeReq, reply, .onHandShake, [.sendTo request]⟩ := by
  refine ⟨hblock.filled, ?_, ?_⟩
  · intro hs behind fuel buf hpart hne
    have hwaits : (handshake .idle behind).run
        ⟨hs, some ⟨cid, .handshakeReq, buf⟩, [.sendTo request]⟩ =
        .ok false ⟨hs, some ⟨cid, .handshakeReq, buf⟩, [.sendTo request]⟩ := by
      rw [handshake_client, clientHandshake_run, hblock.unfinished hpart hne]
      simp
    unfold onRecv
    rw [run_bind_ok hwaits]
    rfl
  · intro hs behind w
    obtain ⟨pos, hpos⟩ := Option.ne_none_iff_exists'.mp (hhttp w)
    have hlong := hblock.long
    refine ⟨hs, ?_⟩
    dsimp only
    rw [handshake_client, clientHandshake_run, if_neg (by rw [List.length_append]; omega),
      hblock.found]
    dsimp only
    rw [hpos, hblock.behind]
    rfl

def serverSide (ip : List UInt8) (port : Int) (sid : Nat) : Side :=
  ⟨sid, .handshakeWait, getStr ip port, .sendTo clientReply, []⟩

def clientSide (ip : List UInt8) (port : Int) (cid : Nat) : Side :=
  ⟨cid, .handshakeReq, clientReply, .onHandShake, [.sendTo (getStr ip port)]⟩

theorem serverSide_greets {ip : List UInt8} {port : Int} (h : PlainHost ip port) (sid : Nat) :
    (serverSide ip port sid).Greets := by
  obtain ⟨u, hu, hsplit⟩ := getStr_split ip port
  exact server_greets ⟨length_getStr ip port, memstr_request h⟩ hsplit (request_accepted h hu) sid

theorem clientSide_greets (ip : List UInt8) (port : Int) (cid : Nat) :
    (clientSide ip port cid).Greets := by
  apply client_greets ⟨length_reply _, memstr_reply clientKey⟩
  intro t
  obtain ⟨t', ht'⟩ := reply_http (acceptValue clientKey)
  rw [ht', List.append_assoc]
  exact memstr_occurs (by decide) [] _

/-! ## The connection -/

/-- The frames of messages as `sendMsg` puts them on the wire. -/
def Framed (isConnect : Bool) (msgs : List (List UInt8)) (wire : List UInt8) : Prop :=
  encodeAll (msgs.map fun msg => (.sendMsg2 isConnect, msg)) = .ok wire ∧
    ∀ msg ∈ msgs, msg.length ≤ 0xFFFF

theorem framed_nil (isConnect : Bool) : Framed isConnect [] [] := ⟨rfl, by simp⟩

theorem Framed.run {isConnect : Bool} {msgs : List (List UInt8)} {wire : List UInt8}
    (h : Framed isConnect msgs wire) : frameRun wire = ⟨msgs, .left []⟩ := by
  have hsize : ∀ m ∈ msgs.map fun msg => (Encoding.sendMsg2 isConnect, msg),
      m.2.length ≤ 0xFFFF := by
    simpa using h.2
  obtain ⟨wire', hwire', hrun⟩ := encodeAll_run hsize
  rw [h.1] at hwire'
  cases hwire'
  rw [hrun, List.map_map]
  simp [Function.comp_def]

/-- `sendMsg` puts one more frame behind them. -/
theorem Framed.sends {isConnect : Bool} {msgs : List (List UInt8)} {wire msg : List UInt8}
    (h : Framed isConnect msgs wire) (hmsg : msg.length ≤ 0xFFFF) :
    ∃ bufs left, sendMsg isConnect msg = .ok (bufs, left) ∧
      Framed isConnect (msgs ++ [msg]) (wire ++ bufs.flatten) := by
  obtain ⟨bufs, hsend, -⟩ := sendMsg_frame isConnect hmsg
  refine ⟨bufs, _, hsend, ?_, ?_⟩
  · rw [List.map_append]
    exact encodeAll_append _ _ h.1 (sendMsg_encode hsend)
  · intro m hm
    rcases List.mem_append.mp hm with hm | hm
    · exact h.2 m hm
    · exact List.mem_singleton.mp hm ▸ hmsg

/-- A side, the channel to it, and what is on its way: the rest of the frames, behind the greeting
where that has been `said`. -/
def Carries (d : Side) (isConnect said opened : Bool) (c : Fifo (List UInt8)) (s : WsState)
    (more : List UInt8) : Prop :=
  ∃ got wire, d.At got s opened c.received ∧ Framed isConnect c.sent wire ∧
    got ++ more = if said then d.greeting ++ wire else []

theorem Side.At.phase {got : List UInt8} {s : WsState} {opened : Bool} {msgs : List (List UInt8)}
    (h : d.At got s opened msgs) (hphase : d.phase ≠ .frame) :
    s.conn.map (fun c => c.userData) = some .frame ↔ opened = true := by
  cases h with
  | waits => simp [hphase]
  | frames => simp

namespace Carries

variable {isConnect said opened : Bool} {c : Fifo (List UInt8)} {s : WsState} {more : List UInt8}

theorem waiting (h : Carries d isConnect said false c s more) : c.received = [] := by
  obtain ⟨got, wire, hat, -⟩ := h
  generalize c.received = msgs at hat
  cases hat
  rfl

theorem unsaid (hd : d.Greets) (h : Carries d isConnect false opened c s more) :
    more = [] ∧ opened = false := by
  obtain ⟨got, wire, hat, -, hgot⟩ := h
  simp only [Bool.false_eq_true, if_false, List.append_eq_nil_iff] at hgot
  obtain ⟨rfl, rfl⟩ := hgot
  generalize c.received = msgs at hat
  cases hat with
  | waits => exact ⟨rfl, rfl⟩
  | frames _ split => exact absurd (List.append_eq_nil_iff.mp split.symm).1 hd.filled

/-- A `recv` of the side. -/
theorem receive (hd : d.Greets) (h : Carries d isConnect said opened c s more) (n : Nat)
    (behind : List UInt8) (hs : Handshake) :
    ∃ s' opened' msgs c', Link.receives s (more.take n) behind hs =
        .ok (Conversation.calls d.hello opened opened' msgs, s') ∧
      Carries d isConnect said opened' c' s' (more.drop n) ∧ c.Delivers msgs c' ∧
      opened ≤ opened' ∧ (opened' = true → said = true) := by
  cases said with
  | false =>
    obtain ⟨rfl, rfl⟩ := h.unsaid hd
    refine ⟨s, false, [], c, ?_, ?_, ⟨rfl, by simp⟩, le_refl _, by simp⟩
    · simp [Link.receives, Conversation.calls]
    · simpa using h
  | true =>
    obtain ⟨got, wire, hat, hframed, hgot⟩ := h
    rw [if_pos rfl] at hgot
    have hcut : got ++ more.take n ++ more.drop n = d.greeting ++ wire := by
      rw [List.append_assoc, List.take_append_drop, hgot]
    obtain ⟨s', opened', msgs, hat', hrecv, hle⟩ := Side.receive hd hat hcut hframed.run behind hs
    obtain ⟨c', hdeliver⟩ := c.delivers_of_prefix (hat'.received hcut hframed.run)
    refine ⟨s', opened', msgs, c', hrecv, ⟨_, wire, ?_, ?_, hcut⟩, hdeliver, hle, fun _ => rfl⟩
    · rw [hdeliver.received]
      exact hat'
    · rw [hdeliver.sent]
      exact hframed

/-- A `sendMsg` on the other side. -/
theorem sends {msg : List UInt8} (h : Carries d isConnect true opened c s more)
    (hmsg : msg.length ≤ 0xFFFF) :
    ∃ bufs left, sendMsg isConnect msg = .ok (bufs, left) ∧
      Carries d isConnect true opened (c.send msg) s (more ++ bufs.flatten) := by
  obtain ⟨got, wire, hat, hframed, hgot⟩ := h
  obtain ⟨bufs, left, hsend, hframed'⟩ := hframed.sends hmsg
  refine ⟨bufs, left, hsend, got, _, hat, hframed', ?_⟩
  rw [if_pos rfl] at hgot ⊢
  rw [← List.append_assoc, hgot, List.append_assoc]

/-- The other side says the greeting, or has said it. -/
theorem greeted {before after : Bool} (hd : d.Greets)
    (h : Carries d isConnect before opened c s more) (hnone : before = false → c.sent = [])
    (hle : before ≤ after) :
    Carries d isConnect after opened c s (more ++ if after = before then [] else d.greeting) := by
  by_cases hsame : after = before
  · subst hsame
    simpa using h
  · cases before with
    | true => exact absurd (le_antisymm (Bool.le_true _) hle) hsame
    | false =>
      have hafter : after = true := by simpa using hsame
      obtain ⟨rfl, -⟩ := h.unsaid hd
      obtain ⟨got, wire, hat, -, hgot⟩ := h
      obtain rfl : got = [] := by simpa using hgot
      refine ⟨[], [], hat, ?_, by simp [hafter]⟩
      rw [hnone rfl]
      exact framed_nil isConnect

end Carries

theorem wireOf_calls (hello : WsCall) (before after : Bool) (msgs : List (List UInt8)) :
    Link.wireOf (Conversation.calls hello before after msgs) =
      if after = before then [] else Link.wireOf [hello] := by
  have hmsgs : Link.wireOf (msgs.map .onReadMsg) = [] := by
    simp [Link.wireOf, List.flatMap_map]
  unfold Conversation.calls
  split_ifs with h
  · simpa using hmsgs
  · rw [Link.wireOf, List.flatMap_append]
    rw [Link.wireOf] at hmsgs
    rw [hmsgs, List.append_nil]
    rfl

/-- The two sides of a connection, as far as its conversation has come. -/
structure Coupled (cd sd : Side) (l : Link) (c : Conversation) : Prop where
  server : Carries sd true true c.accepted c.up l.server l.up
  client : Carries cd false c.accepted c.opened c.down l.client l.down

variable {ip : List UInt8} {port : Int} {cid sid : Nat} {l : Link} {c : Conversation}

theorem link_hears (h : PlainHost ip port)
    (hl : Coupled (clientSide ip port cid) (serverSide ip port sid) l c) (n : Nat)
    (behind : List UInt8) (hs : Handshake) :
    ∃ r l' c', Link.exec (.toServer n behind hs) l = .ok (r, l') ∧
      Conversation.Step (.toServer n behind hs) c r c' ∧
      Coupled (clientSide ip port cid) (serverSide ip port sid) l' c' := by
  obtain ⟨s', accepted, msgs, up, hrecv, hserver, hdeliver, hle, -⟩ :=
    hl.server.receive (serverSide_greets h sid) n behind hs
  have hclient := hl.client.greeted (clientSide_greets ip port cid) c.untold hle
  have hwire : Link.wireOf (Conversation.calls (serverSide ip port sid).hello c.accepted accepted
      msgs) = if accepted = c.accepted then [] else (clientSide ip port cid).greeting := by
    rw [wireOf_calls]
    simp [Link.wireOf, serverSide, clientSide]
  refine ⟨_, ⟨l.client, s', l.up.drop n, _⟩, ⟨up, c.down, accepted, c.opened, ?_, ?_, ?_⟩, ?_,
    ⟨msgs, rfl, hdeliver, rfl, hle, rfl⟩, hserver, hclient⟩
  · intro hopened
    exact le_antisymm (Bool.le_true _) (c.order hopened ▸ hle)
  · rintro rfl
    exact hserver.waiting
  · rintro rfl
    exact c.untold (le_antisymm hle (Bool.false_le _))
  · rw [Link.exec_toServer hrecv, hwire]
    rfl

theorem link_told
    (hl : Coupled (clientSide ip port cid) (serverSide ip port sid) l c) (n : Nat)
    (behind : List UInt8) (hs : Handshake) :
    ∃ r l' c', Link.exec (.toClient n behind hs) l = .ok (r, l') ∧
      Conversation.Step (.toClient n behind hs) c r c' ∧
      Coupled (clientSide ip port cid) (serverSide ip port sid) l' c' := by
  obtain ⟨s', opened, msgs, down, hrecv, hclient, hdeliver, hle, hsaid⟩ :=
    hl.client.receive (clientSide_greets ip port cid) n behind hs
  have hwire : Link.wireOf (Conversation.calls (clientSide ip port cid).hello c.opened opened
      msgs) = [] := by
    rw [wireOf_calls]
    simp [Link.wireOf, clientSide]
  refine ⟨_, ⟨s', l.server, l.up, l.down.drop n⟩, ⟨c.up, down, c.accepted, opened, hsaid,
    c.unheard, ?_⟩, ?_, ⟨msgs, rfl, hdeliver, rfl, rfl, hle⟩, hl.server, hclient⟩
  · rw [hdeliver.sent]
    exact c.untold
  · rw [Link.exec_toClient hrecv, hwire, List.append_nil]
    rfl

theorem link_simulates (h : PlainHost ip port) : Refine.Simulates Link.exec Link.Legal
    Conversation.Step (Coupled (clientSide ip port cid) (serverSide ip port sid)) := by
  intro e l c hl hlegal
  cases e with
  | clientSends msg =>
    obtain ⟨bufs, left, hsend, hserver⟩ := hl.server.sends hlegal
    refine ⟨[], { l with up := l.up ++ bufs.flatten }, { c with up := c.up.send msg }, ?_,
      ⟨rfl, rfl, rfl, rfl, rfl⟩, hserver, hl.client⟩
    simp only [Link.exec, hsend]
    rfl
  | serverSends msg =>
    have haccepted : c.accepted = true := by
      obtain ⟨got, wire, hat, -⟩ := hl.server
      exact (hat.phase (by simp [serverSide])).mp hlegal.2
    have hclient := hl.client
    rw [haccepted] at hclient
    obtain ⟨bufs, left, hsend, hclient⟩ := hclient.sends hlegal.1
    refine ⟨[], { l with down := l.down ++ bufs.flatten }, { c with
      down := c.down.send msg
      untold := fun hnot => absurd (haccepted.symm.trans hnot) (by simp) }, ?_,
      ⟨rfl, rfl, rfl, rfl, rfl⟩, hl.server, haccepted ▸ hclient⟩
    simp only [Link.exec, hsend]
    rfl
  | toServer n behind hs => exact link_hears h hl n behind hs
  | toClient n behind hs => exact link_told hl n behind hs

theorem start_coupled (h : PlainHost ip port) (hs hs' : Handshake) :
    Coupled (clientSide ip port cid) (serverSide ip port sid) (Link.start ip port cid sid hs hs')
      Conversation.start := by
  have hwire : Link.wireOf [.sendTo (getStr ip port)] = getStr ip port := by simp [Link.wireOf]
  constructor
  · refine ⟨[], [], .waits hs' List.nil_prefix (serverSide_greets h sid).filled.symm,
      framed_nil true, ?_⟩
    rw [List.append_nil, if_pos rfl]
    exact hwire
  · exact ⟨[], [], .waits hs List.nil_prefix (clientSide_greets ip port cid).filled.symm,
      framed_nil false, rfl⟩

/-- **However a connection is used and however its bytes arrive, nothing fails, neither side
closes it, and either hands on the other's messages: each once, whole, in order.** -/
theorem link_follows {ip : List UInt8} {port : Int} (h : PlainHost ip port) (cid sid : Nat)
    (hs hs' : Handshake) (events : List LinkEvent)
    (hlegal : Refine.Allowed Link.exec Link.Legal (Link.start ip port cid sid hs hs') events) :
    ∃ calls l c, Refine.run Link.exec (Link.start ip port cid sid hs hs') events =
        .ok (calls, l) ∧
      Refine.Follows Conversation.Step Conversation.start events calls c := by
  obtain ⟨calls, l, c, hrun, hfollows, -⟩ :=
    Refine.run_follows (link_simulates h) (start_coupled h hs hs') hlegal
  exact ⟨calls, l, c, hrun, hfollows⟩

/-- A request, a message each way, and a request that comes in behind the second one. -/
theorem link_follows_local :
    let events := [.toServer 1000 [] nullHandshake, .serverSends (ascii "hello"),
      .clientSends (ascii "hi"), .toServer 3 [7] nullHandshake, .toClient 200 [] nullHandshake]
    ∃ calls l c, Refine.run Link.exec
        (Link.start (ascii "127.0.0.1") 9001 4 5 nullHandshake nullHandshake) events =
          .ok (calls, l) ∧
      Refine.Follows Conversation.Step Conversation.start events calls c := by
  apply link_follows ⟨by decide, by decide, by decide +kernel⟩
  refine ⟨trivial, fun r l hopen => ?_⟩
  have hphase : (Link.exec (.toServer 1000 [] nullHandshake)
      (Link.start (ascii "127.0.0.1") 9001 4 5 nullHandshake nullHandshake)).map
        (fun p => p.2.server.conn.map fun c => c.userData) = .ok (some .frame) := by
    decide +kernel
  rw [hopen] at hphase
  refine ⟨⟨by decide, Except.ok.inj hphase⟩, fun _ _ _ => ⟨?_, fun _ _ _ => ⟨trivial, fun _ _ _ =>
    ⟨trivial, fun _ _ _ => trivial⟩⟩⟩⟩
  exact show (ascii "hi").length ≤ 0xFFFF by decide

/-! ## What has been handed on in the end -/

def LinkEvent.asked : LinkEvent → Option (List UInt8)
  | .clientSends msg => some msg
  | _ => none

def LinkEvent.told : LinkEvent → Option (List UInt8)
  | .serverSends msg => some msg
  | _ => none

theorem follows_sent {c c' : Conversation} {events : List LinkEvent} {calls : List (List WsCall)}
    (h : Refine.Follows Conversation.Step c events calls c') :
    c'.up.sent = c.up.sent ++ events.filterMap LinkEvent.asked ∧
      c'.down.sent = c.down.sent ++ events.filterMap LinkEvent.told := by
  induction h with
  | nil c => simp
  | @cons e r events rs c c₁ c₂ step rest ih =>
    rw [ih.1, ih.2]
    cases e with
    | clientSends msg =>
      obtain ⟨-, hup, hdown, -, -⟩ := step
      simp [hup, hdown, List.filterMap_cons, LinkEvent.asked, LinkEvent.told]
    | serverSends msg =>
      obtain ⟨-, hup, hdown, -, -⟩ := step
      simp [hup, hdown, List.filterMap_cons, LinkEvent.asked, LinkEvent.told]
    | toServer n behind hs =>
      obtain ⟨msgs, -, hup, hdown, -, -⟩ := step
      simp [hup.sent, hdown, List.filterMap_cons, LinkEvent.asked, LinkEvent.told]
    | toClient n behind hs =>
      obtain ⟨msgs, -, hdown, hup, -, -⟩ := step
      simp [hdown.sent, hup, List.filterMap_cons, LinkEvent.asked, LinkEvent.told]

/-- Nothing is on its way, and either side has handed on all of `asked` and `told`. -/
structure Settled (ip : List UInt8) (port : Int) (cid sid : Nat) (asked told : List (List UInt8))
    (l : Link) : Prop where
  up : l.up = []
  down : l.down = []
  server : ∃ hs, l.server =
    ⟨hs, some ⟨sid, .frame, []⟩, .sendTo clientReply :: asked.map .onReadMsg⟩
  client : ∃ hs, l.client = ⟨hs, some ⟨cid, .frame, []⟩,
    .sendTo (getStr ip port) :: .onHandShake :: told.map .onReadMsg⟩

/-- A side that everything has come to. -/
theorem Carries.settled {isConnect opened : Bool} {c : Fifo (List UInt8)} {s : WsState}
    (h : Carries d isConnect true opened c s []) : opened = true ∧ ∃ hs,
      s = ⟨hs, some ⟨d.sid, .frame, []⟩, d.before ++ [d.hello] ++ c.sent.map .onReadMsg⟩ := by
  obtain ⟨got, wire, hat, hframed, hgot⟩ := h
  rw [List.append_nil, if_pos rfl] at hgot
  generalize c.received = msgs at hat
  cases hat with
  | waits hs part more =>
    obtain ⟨t, ht⟩ := part
    rw [hgot] at ht more
    have hwire : wire = [] := by
      have hlen := congrArg List.length ht
      simp only [List.length_append] at hlen
      exact List.length_eq_zero_iff.mp (by omega)
    simp [hwire] at more
  | @frames hs w rest _ split run =>
    rw [hgot, List.append_cancel_left_eq] at split
    subst split
    rw [hframed.run] at run
    cases run
    exact ⟨rfl, hs, rfl⟩

theorem Coupled.settled
    (hl : Coupled (clientSide ip port cid) (serverSide ip port sid) l c) (hup : l.up = [])
    (hdown : l.down = []) : Settled ip port cid sid c.up.sent c.down.sent l := by
  obtain ⟨hserver, hclient⟩ := hl
  rw [hup] at hserver
  rw [hdown] at hclient
  obtain ⟨haccepted, hs, hserver⟩ := hserver.settled
  rw [haccepted] at hclient
  obtain ⟨-, hs', hclient⟩ := hclient.settled
  exact ⟨hup, hdown, ⟨hs, hserver⟩, hs', hclient⟩

/-- All of it comes to the server, and then all of it to the client. -/
theorem Coupled.drains (h : PlainHost ip port)
    (hl : Coupled (clientSide ip port cid) (serverSide ip port sid) l c)
    (behind behind' : List UInt8) (hs hs' : Handshake) :
    ∃ calls₁ l₁ calls₂ l₂, Link.exec (.toServer l.up.length behind hs) l = .ok (calls₁, l₁) ∧
      Link.exec (.toClient l₁.down.length behind' hs') l₁ = .ok (calls₂, l₂) ∧
      Settled ip port cid sid c.up.sent c.down.sent l₂ := by
  obtain ⟨calls₁, l₁, c₁, hhears, ⟨msgs, -, hup, hdown, -, -⟩, hl₁⟩ :=
    link_hears h hl l.up.length behind hs
  obtain ⟨calls₂, l₂, c₂, htold, ⟨msgs', hcalls, hdown', hup', -, -⟩, hl₂⟩ :=
    link_told hl₁ l₁.down.length behind' hs'
  have hempty₁ : l₁.up = [] := by
    rw [Link.exec_up hhears, List.drop_length]
  obtain ⟨hdown₂, hup₂⟩ := Link.exec_down htold
  have hsettled := hl₂.settled (by
    rw [hup₂, hempty₁, hcalls, wireOf_calls]
    simp [Link.wireOf]) (by rw [hdown₂, List.drop_length])
  rw [hup', hup.sent, hdown'.sent, hdown] at hsettled
  exact ⟨calls₁, l₁, calls₂, l₂, hhears, htold, hsettled⟩

/-- **Once nothing is on its way, the server has handed on exactly the messages the client was
asked to send and the client those of the server, and both have empty buffers; and from wherever a
connection has come to, two deliveries lead there.** -/
theorem link_settles {ip : List UInt8} {port : Int} (h : PlainHost ip port) (cid sid : Nat)
    (hs hs' : Handshake) (events : List LinkEvent)
    (hlegal : Refine.Allowed Link.exec Link.Legal (Link.start ip port cid sid hs hs') events) :
    ∃ calls l, Refine.run Link.exec (Link.start ip port cid sid hs hs') events =
        .ok (calls, l) ∧
      let Settles := Settled ip port cid sid (events.filterMap LinkEvent.asked)
        (events.filterMap LinkEvent.told)
      (l.up = [] → l.down = [] → Settles l) ∧
        ∀ behind behind' hs hs', ∃ calls₁ l₁ calls₂ l₂,
          Link.exec (.toServer l.up.length behind hs) l = .ok (calls₁, l₁) ∧
          Link.exec (.toClient l₁.down.length behind' hs') l₁ = .ok (calls₂, l₂) ∧
          Settles l₂ := by
  have hstart : Coupled (clientSide ip port cid) (serverSide ip port sid)
      (Link.start ip port cid sid hs hs') .start := start_coupled h hs hs'
  obtain ⟨calls, l, c, hrun, hfollows, hl⟩ :=
    Refine.run_follows (link_simulates h) hstart hlegal
  obtain ⟨hasked, htold⟩ := follows_sent hfollows
  rw [show Conversation.start.up.sent = [] from rfl, List.nil_append] at hasked
  rw [show Conversation.start.down.sent = [] from rfl, List.nil_append] at htold
  rw [← hasked, ← htold]
  exact ⟨calls, l, hrun, hl.settled, hl.drains h⟩

theorem link_settles_local :
    let events := [.clientSends (ascii "hi"), .toServer 20 [] nullHandshake,
      .toClient 9 [] nullHandshake]
    ∃ calls l, Refine.run Link.exec
        (Link.start (ascii "127.0.0.1") 9001 4 5 nullHandshake nullHandshake) events =
          .ok (calls, l) ∧
      let Settles := Settled (ascii "127.0.0.1") 9001 4 5 [ascii "hi"] []
      (l.up = [] → l.down = [] → Settles l) ∧
        ∀ behind behind' hs hs', ∃ calls₁ l₁ calls₂ l₂,
          Link.exec (.toServer l.up.length behind hs) l = .ok (calls₁, l₁) ∧
          Link.exec (.toClient l₁.down.length behind' hs') l₁ = .ok (calls₂, l₂) ∧
          Settles l₂ := by
  apply link_settles ⟨by decide, by decide, by decide +kernel⟩
  exact ⟨show (ascii "hi").length ≤ 0xFFFF by decide, fun _ _ _ => ⟨trivial, fun _ _ _ =>
    ⟨trivial, fun _ _ _ => trivial⟩⟩⟩

end WebSocketPoller

end ChainSocket
