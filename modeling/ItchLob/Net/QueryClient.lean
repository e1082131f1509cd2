import ItchLob.Net.Replies

set_option autoImplicit false

namespace ItchLob.Net

open Pipeline QueryWire Delimited

inductive Heard where
  | error (msg : Text) (locate : Option UInt16)
  | quote (q : LocateSnapshot) (snapshotVersion unknownRefs : UInt64)
  | list (all : List LocateSnapshot) (snapshotVersion unknownRefs : UInt64)
  deriving DecidableEq

def field (name : String) : Json.Value → Option Json.Value
  | .object fields => (fields.find? fun found => found.1 = key name).map Prod.snd
  | _ => none

def natural (name : String) (v : Json.Value) : Option Nat :=
  match field name v with
  | some (.number n) => some n
  | _ => none

def side (price shares : String) (v : Json.Value) : Option (Option (Nat × Nat)) :=
  match field price v, field shares v with
  | some (.number p), some (.number n) => some (some (p, n))
  | some .null, some .null => some none
  | _, _ => none

def readSnapshot (v : Json.Value) : Option LocateSnapshot :=
  match natural "locate" v, side "best_bid" "best_bid_shares" v, side "best_ask" "best_ask_shares" v,
      natural "open_orders" v, natural "bid_levels" v, natural "ask_levels" v with
  | some locate, some bid, some ask, some openOrders, some bidLevels, some askLevels =>
    some {
      locate := .ofNat locate
      hasBid := bid.isSome
      bidPrice := .ofNat ((bid.map Prod.fst).getD 0)
      bidShares := .ofNat ((bid.map Prod.snd).getD 0)
      hasAsk := ask.isSome
      askPrice := .ofNat ((ask.map Prod.fst).getD 0)
      askShares := .ofNat ((ask.map Prod.snd).getD 0)
      openOrders, bidLevels, askLevels }
  | _, _, _, _, _, _ => none

def readSnapshots : List Json.Value → Option (List LocateSnapshot)
  | [] => some []
  | v :: rest =>
    match readSnapshot v, readSnapshots rest with
    | some q, some all => some (q :: all)
    | _, _ => none

def readReply (v : Json.Value) : Option Heard :=
  match field "error" v, field "books" v with
  | some (.string msg), _ => some (.error msg.text ((natural "locate" v).map UInt16.ofNat))
  | none, some (.array items) =>
    match readSnapshots items, natural "snapshot_version" v, natural "unknown_refs" v with
    | some all, some version, some refs => some (.list all (.ofNat version) (.ofNat refs))
    | _, _, _ => none
  | none, none =>
    match readSnapshot v, natural "snapshot_version" v, natural "unknown_refs" v with
    | some q, some version, some refs => some (.quote q (.ofNat version) (.ofNat refs))
    | _, _, _ => none
  | _, _ => none

def hears (stream : Text) : List (Option Heard) :=
  (terminated newline stream).map fun line => (Json.parse line).bind readReply

def visible (q : LocateSnapshot) : LocateSnapshot :=
  { q with
    bidPrice := if q.hasBid then q.bidPrice else 0
    bidShares := if q.hasBid then q.bidShares else 0
    askPrice := if q.hasAsk then q.askPrice else 0
    askShares := if q.hasAsk then q.askShares else 0 }

def Reply.heard : Reply → Heard
  | .error msg => .error (text msg) none
  | .errorLocate msg locate => .error (text msg) (some locate)
  | .quote q snapshotVersion unknownRefs => .quote (visible q) snapshotVersion unknownRefs
  | .list all snapshotVersion unknownRefs => .list (all.map visible) snapshotVersion unknownRefs

theorem readSnapshot_fields (q : LocateSnapshot) (more : List (Json.Plain × Json.Value)) :
    readSnapshot (.object (snapshotFields q ++ more)) = some (visible q) := by
  have locate : natural "locate" (.object (snapshotFields q ++ more)) = some q.locate.toNat := rfl
  have bid : side "best_bid" "best_bid_shares" (.object (snapshotFields q ++ more)) =
      some (if q.hasBid then some (q.bidPrice.toNat, q.bidShares.toNat) else none) := by
    rw [side, show field "best_bid" _ = some (shown q.hasBid q.bidPrice.toNat) from rfl,
      show field "best_bid_shares" _ = some (shown q.hasBid q.bidShares.toNat) from rfl]
    cases q.hasBid <;> rfl
  have ask : side "best_ask" "best_ask_shares" (.object (snapshotFields q ++ more)) =
      some (if q.hasAsk then some (q.askPrice.toNat, q.askShares.toNat) else none) := by
    rw [side, show field "best_ask" _ = some (shown q.hasAsk q.askPrice.toNat) from rfl,
      show field "best_ask_shares" _ = some (shown q.hasAsk q.askShares.toNat) from rfl]
    cases q.hasAsk <;> rfl
  have orders : natural "open_orders" (.object (snapshotFields q ++ more)) = some q.openOrders := rfl
  have bids : natural "bid_levels" (.object (snapshotFields q ++ more)) = some q.bidLevels := rfl
  have asks : natural "ask_levels" (.object (snapshotFields q ++ more)) = some q.askLevels := rfl
  rw [readSnapshot, locate, bid, ask, orders, bids, asks]
  obtain ⟨locate, hasBid, bidPrice, bidShares, hasAsk, askPrice, askShares, openOrders, bidLevels, askLevels⟩ := q
  cases hasBid <;> cases hasAsk <;> simp [visible]

theorem readSnapshots_objects (all : List LocateSnapshot) :
    readSnapshots (all.map fun q => .object (snapshotFields q)) = some (all.map visible) := by
  induction all with
  | nil => rfl
  | cons q all ih =>
    have first := readSnapshot_fields q []
    rw [List.append_nil] at first
    simp only [List.map_cons, readSnapshots, first, ih]

theorem readReply_value {reply : Reply} (free : reply.bare = true) : readReply reply.value = some reply.heard := by
  have message {msg : String} (free : (text msg).all Json.bare = true) : (key msg).text = text msg :=
    List.filter_eq_self.mpr (List.all_eq_true.mp free)
  cases reply with
  | error msg =>
    have read : readReply (Reply.error msg).value = some (.error (key msg).text none) := rfl
    rw [read, message free, Reply.heard]
  | errorLocate msg locate =>
    have read : readReply (Reply.errorLocate msg locate).value =
        some (.error (key msg).text (some (.ofNat locate.toNat))) := rfl
    rw [read, message free, UInt16.ofNat_toNat, Reply.heard]
  | quote q snapshotVersion unknownRefs =>
    have error : field "error" (Reply.quote q snapshotVersion unknownRefs).value = none := rfl
    have books : field "books" (Reply.quote q snapshotVersion unknownRefs).value = none := rfl
    have version : natural "snapshot_version" (Reply.quote q snapshotVersion unknownRefs).value =
        some snapshotVersion.toNat := rfl
    have refs : natural "unknown_refs" (Reply.quote q snapshotVersion unknownRefs).value =
        some unknownRefs.toNat := rfl
    rw [readReply, error, books, version, refs]
    simp only [Reply.value, readSnapshot_fields, UInt64.ofNat_toNat, Reply.heard]
  | list all snapshotVersion unknownRefs =>
    have error : field "error" (Reply.list all snapshotVersion unknownRefs).value = none := rfl
    have books : field "books" (Reply.list all snapshotVersion unknownRefs).value =
        some (.array (all.map fun q => .object (snapshotFields q))) := rfl
    have version : natural "snapshot_version" (Reply.list all snapshotVersion unknownRefs).value =
        some snapshotVersion.toNat := rfl
    have refs : natural "unknown_refs" (Reply.list all snapshotVersion unknownRefs).value =
        some unknownRefs.toNat := rfl
    rw [readReply, error, books, version, refs]
    simp only [readSnapshots_objects, UInt64.ofNat_toNat, Reply.heard]

theorem hears_reply {reply : Reply} (free : reply.bare = true) :
    (Json.parse (text reply.json)).bind readReply = some reply.heard := by
  rw [reply_text free, Json.parse_render, Option.bind_some, readReply_value free]

theorem reply_oneLine {reply : Reply} (free : reply.bare = true) : newline ∉ text reply.json := by
  rw [reply_text free]
  intro inside
  exact absurd (List.all_eq_true.mp (Json.render_printing reply.value) newline inside) (by decide)

def QueryServer.answer (q : QueryServer) (line : Text) : Reply := (Net.handleLine q.lists q.quotes line).run q.history []

def requests (stream : Text) : List Text := ((terminated newline stream).map stripCr).filter fun line => line ≠ []

def tooLong : Reply := .error "request line too long"

theorem responses_requests (q : QueryServer) (stream : Text) :
    q.responses stream = ((requests stream).map fun line => text (q.answer line).json).flatMap fun line =>
      line ++ [newline] := by
  rw [QueryServer.responses, requests]
  induction terminated newline stream with
  | nil => rfl
  | cons line later ih =>
    rw [List.flatMap_cons, ih, QueryServer.reply, List.map_cons]
    by_cases blank : stripCr line = []
    · rw [if_pos blank, List.filter_cons_of_neg (by simpa using blank), List.nil_append]
    · rw [if_neg blank, List.filter_cons_of_pos (by simpa using blank), List.map_cons, List.flatMap_cons]
      rfl

theorem sendLoop_part (sends : List Sent) (data written : Text) :
    ∃ part, part <+: data ∧ (sendLoop sends data written).2.1 = written ++ part ∧
      ((sendLoop sends data written).2.2 = true → part = data) := by
  induction sends generalizing data written with
  | nil =>
    cases data with
    | nil => exact ⟨[], List.prefix_rfl, by simp [sendLoop], fun _ => rfl⟩
    | cons b data => exact ⟨b :: data, List.prefix_rfl, rfl, fun _ => rfl⟩
  | cons sent later ih =>
    have stopped (data : Text) : ∃ part, part <+: data ∧ written = written ++ part ∧ (false = true → part = data) :=
      ⟨[], List.nil_prefix, by simp, fun wrong => by cases wrong⟩
    cases data with
    | nil => exact ⟨[], List.prefix_rfl, by simp [sendLoop], fun _ => rfl⟩
    | cons b data =>
      cases sent with
      | failed => exact stopped _
      | again => exact ih _ _
      | took n =>
        cases n with
        | zero => exact stopped _
        | succ n =>
          obtain ⟨part, ⟨rest, more⟩, grown, whole⟩ := ih ((b :: data).drop (n + 1)) (written ++ (b :: data).take (n + 1))
          refine ⟨(b :: data).take (n + 1) ++ part, ⟨rest, ?_⟩, ?_, fun done => ?_⟩
          · rw [List.append_assoc, more, List.take_append_drop]
          · rw [← List.append_assoc]
            exact grown
          · rw [whole done, List.take_append_drop]

theorem sendAll_part (c : Connection) (data : Text) :
    ∃ part later, part <+: data ∧ (sendAll c data).1 = { c with sends := later, written := c.written ++ part } ∧
      ((sendAll c data).2 = true → part = data) := by
  obtain ⟨part, first, grown, whole⟩ := sendLoop_part c.sends data c.written
  exact ⟨part, _, first, by rw [sendAll, grown], whole⟩

/-- Open, it has answered every complete line; closed, it has written a first part
of the answers to some of what came, and perhaps the error about a long line. -/
def Answered (q : QueryServer) (stream : Text) (c : Connection) : Prop :=
  if c.closed then ∃ seen, seen <+: stream ∧ c.written <+: q.responses seen ++ (text tooLong.json ++ [newline])
  else c.buf = unfinished newline stream ∧ c.written = q.responses stream

variable {q : QueryServer} {stream : Text} {c : Connection}

theorem Answered.closes (answered : Answered q stream c) (running : c.closed = false) (more : Text) :
    Answered q (stream ++ more) { c with closed := true } := by
  rw [Answered, running] at answered
  refine ⟨stream, List.prefix_append _ _, ?_⟩
  rw [show ({ c with closed := true } : Connection).written = q.responses stream from answered.2]
  exact List.prefix_append _ _

def Looped (q : QueryServer) (buf written : Text) (c : Connection) : Prop :=
  (c.closed = false ∧ c.buf = unfinished newline buf ∧ c.written = written ++ q.responses buf) ∨
    (c.closed = true ∧ ∃ part, part <+: q.responses buf ∧ c.written = written ++ part)

theorem lineLoop_looped (fuel : Nat) (c : Connection) (enough : c.buf.length ≤ fuel) (running : c.closed = false) :
    Looped q c.buf c.written (lineLoop q fuel c) := by
  obtain ⟨buf, lastActivity, sends, written, closed⟩ := c
  dsimp only at enough running ⊢
  subst running
  induction buf using pieces_induction (d := newline) generalizing fuel sends written with
  | plain buf plain =>
    left
    cases fuel <;> simp [lineLoop, takeLine_plain plain, unfinished_plain plain, QueryServer.responses,
      terminated_plain plain]
  | first line buf plain ih =>
    simp only [List.length_append, List.length_cons] at enough
    obtain ⟨fuel, rfl⟩ : ∃ n, fuel = n + 1 := ⟨fuel - 1, by omega⟩
    have responses : q.responses (line ++ newline :: buf) = q.reply line ++ q.responses buf := by
      rw [QueryServer.responses, terminated_line plain, List.flatMap_cons]
      rfl
    rw [Looped, responses, unfinished_line plain]
    simp only [lineLoop, takeLine_line plain, QueryServer.reply]
    by_cases blank : stripCr line = []
    · simpa [blank, Looped] using ih fuel sends written (by omega)
    rw [if_neg blank, if_neg blank]
    generalize q.handleLine (stripCr line) ++ [newline] = data
    obtain ⟨part, later, first, grown, whole⟩ := sendAll_part ⟨buf, lastActivity, sends, written, false⟩ data
    by_cases sent : (sendAll ⟨buf, lastActivity, sends, written, false⟩ data).2 = true
    · rw [if_pos sent, grown, whole sent]
      rcases ih fuel later (written ++ data) (by omega) with ⟨running, buffered, now⟩ | ⟨closed, more, begins, now⟩
      · exact .inl ⟨running, buffered, by rw [now, List.append_assoc]⟩
      · exact .inr ⟨closed, data ++ more, (List.prefix_append_right_inj _).mpr begins,
          by rw [now, List.append_assoc]⟩
    · rw [if_neg sent, grown]
      exact .inr ⟨rfl, part, first.trans (List.prefix_append _ _), rfl⟩

theorem Answered.arrived (answered : Answered q stream c) (running : c.closed = false) (data : Text) :
    Answered q (stream ++ data) (q.arrived c data) := by
  rw [Answered, running] at answered
  obtain ⟨rest, written⟩ := answered
  have responses : q.responses (stream ++ data) = c.written ++ q.responses (c.buf ++ data) := by
    rw [responses_append, rest, written]
  have buffered : unfinished newline (c.buf ++ data) = unfinished newline (stream ++ data) := by
    rw [rest, ← unfinished_append]
  have looped : Looped q (c.buf ++ data) c.written _ :=
    lineLoop_looped (c.buf ++ data).length { c with buf := c.buf ++ data } (Nat.le_refl _) running
  unfold QueryServer.arrived
  simp only
  rcases looped with ⟨running, buf, written⟩ | ⟨closed, part, begins, written⟩
  · rw [running]
    simp only [Bool.false_eq_true, if_false]
    split
    · obtain ⟨part, later, first, grown, -⟩ := sendAll_part
        (lineLoop q (c.buf ++ data).length { c with buf := c.buf ++ data })
        (text (errorJson "request line too long") ++ [newline])
      refine ⟨stream ++ data, List.prefix_rfl, ?_⟩
      rw [grown, written, responses]
      exact (List.prefix_append_right_inj _).mpr first
    · rw [Answered, running, if_neg Bool.false_ne_true, buf, written, responses, buffered]
      exact ⟨rfl, rfl⟩
  · rw [closed, if_pos rfl, Answered, closed, if_pos rfl]
    refine ⟨stream ++ data, List.prefix_rfl, ?_⟩
    rw [written, responses]
    exact ((List.prefix_append_right_inj _).mpr begins).trans (List.prefix_append _ _)

theorem round_answered (answered : Answered q stream c) (e : Event) :
    Answered q (stream ++ e.data) (q.round c e) := by
  unfold QueryServer.round
  split
  next closed =>
    rw [Answered, closed, if_pos rfl] at answered ⊢
    obtain ⟨seen, begins, written⟩ := answered
    exact ⟨seen, begins.trans (List.prefix_append _ _), written⟩
  next running =>
    have running : c.closed = false := eq_false_of_ne_true running
    split
    · exact answered.closes running _
    · obtain ⟨stopRequested, received, now⟩ := e
      cases received with
      | chunk data =>
        have heard : Answered q stream { c with lastActivity := now } := answered
        exact heard.arrived running data.data
      | closed | failed => exact answered.closes running _
      | again =>
        simp only
        split
        · exact answered.closes running _
        · rw [show stream ++ Event.data ⟨stopRequested, .again, now⟩ = stream from List.append_nil stream]
          exact answered

theorem connection_answered (q : QueryServer) (start : Nat) (sends : List Sent) (events : List Event) :
    Answered q (arrivals events) (q.handleConnection start sends events) := by
  suffices rounds : ∀ stream c, Answered q stream c → Answered q (stream ++ arrivals events) (events.foldl q.round c) from
    rounds [] _ ⟨rfl, rfl⟩
  induction events with
  | nil =>
    intro stream c answered
    rw [arrivals, List.flatMap_nil, List.append_nil]
    exact answered
  | cons e later ih =>
    intro stream c answered
    have next := ih _ _ (round_answered answered e)
    rw [List.append_assoc] at next
    exact next

theorem answer_bare (q : QueryServer) (line : Text) : (q.answer line).bare = true := handleLine_bare _ _ _ _ _

theorem hears_responses (q : QueryServer) (stream : Text) :
    hears (q.responses stream) = (requests stream).map (fun line => some (q.answer line).heard) ∧
      unfinished newline (q.responses stream) = [] := by
  have plain : ∀ line ∈ (requests stream).map fun line => text (q.answer line).json, newline ∉ line := by
    intro line member
    obtain ⟨asked, -, rfl⟩ := List.mem_map.mp member
    exact reply_oneLine (answer_bare q asked)
  rw [responses_requests, hears, terminated_lines plain, unfinished_lines plain, List.map_map]
  refine ⟨List.map_congr_left fun line _ => ?_, rfl⟩
  exact hears_reply (answer_bare q line)

/-- Whatever chunks a client's bytes come in, however send splits the replies and
whenever the connection breaks off: every complete line the client gets is JSON, the
answer to its request line of the same number, with what the store held; only the last
one may be the error about a line too long. With a network that keeps up it hears
every answer, and nothing but these. -/
theorem client_hears_answers (q : QueryServer) (start : Nat) (sends : List Sent) (events : List Event) :
    (∃ seen, seen <+: arrivals events ∧ hears (q.handleConnection start sends events).written <+:
      (requests seen).map (fun line => some (q.answer line).heard) ++
        [some (.error (text "request line too long") none)]) ∧
      (Obliging sends → Patient start events →
        (∀ line ∈ (arrivals events).splitOn newline, line.length ≤ kMaxLineLen) →
        hears (q.handleConnection start sends events).written =
          (requests (arrivals events)).map (fun line => some (q.answer line).heard) ∧
        unfinished newline (q.handleConnection start sends events).written = []) := by
  constructor
  · have answered := connection_answered q start sends events
    obtain ⟨seen, begins, written⟩ : ∃ seen, seen <+: arrivals events ∧
        (q.handleConnection start sends events).written <+: q.responses seen ++ (text tooLong.json ++ [newline]) := by
      unfold Answered at answered
      split at answered
      · exact answered
      · exact ⟨arrivals events, List.prefix_rfl, answered.2 ▸ List.prefix_append _ _⟩
    refine ⟨seen, begins, ?_⟩
    obtain ⟨heard, clean⟩ := hears_responses q seen
    have bare : tooLong.bare = true := by decide
    have last : terminated newline (text tooLong.json ++ [newline]) = [text tooLong.json] := by
      rw [terminated_line (reply_oneLine bare), terminated_plain (List.not_mem_nil)]
    have all : hears (q.responses seen ++ (text tooLong.json ++ [newline])) =
        (requests seen).map (fun line => some (q.answer line).heard) ++
          [some (.error (text "request line too long") none)] := by
      rw [hears, terminated_append, clean, List.nil_append, last, List.map_append, ← hears, heard, List.map_singleton,
        hears_reply bare]
      rfl
    rw [← all]
    exact (terminated_mono written).map _
  · intro obliging patient short
    have fresh : Framed q [] { lastActivity := start, sends } := ⟨rfl, rfl, rfl, obliging⟩
    have framed : Framed q (arrivals events) (q.handleConnection start sends events) :=
      rounds_framed fresh patient short
    rw [framed.answered]
    exact hears_responses q (arrivals events)

theorem client_hears_answers_two_requests :
    let seven : LocateSnapshot := { locate := 7, hasBid := true, bidPrice := 100, bidShares := 50, openOrders := 1 }
    let q : QueryServer := ⟨.dataVersionRefs, .versionRefs, [⟨[seven], 3⟩]⟩
    hears (q.handleConnection 0 [.again, .took 3]
        [⟨false, .chunk ⟨text "\x7b\"cmd\":\"quote\",", by decide +kernel, by decide +kernel⟩, 10⟩, ⟨false, .again, 20⟩,
          ⟨false, .chunk ⟨text "\"locate\":7\x7d\r\nlist\n", by decide +kernel, by decide +kernel⟩, 30⟩]).written =
      [some (.quote seven 1 3), some (.error (text "bad request") none)] := by
  intro seven q
  refine ((client_hears_answers q 0 [.again, .took 3] _).2 (by simp [Obliging]) (by simp [Patient, kIdleTimeout])
    (by decide +kernel)).1.trans ?_
  decide +kernel

end ItchLob.Net
