import ItchLob.Net.QueryServer
import ItchLob.Shared.Delimited

set_option autoImplicit false

namespace ItchLob.Net

open QueryWire Pipeline Delimited

-- What one call of send returns: bytes taken, a retry, or an error.
inductive Sent where
  | took (n : Nat)
  | again
  | failed
  deriving DecidableEq, Repr

def kChunkSize : Nat := 4096

def kMaxLineLen : Nat := 65536

-- Sixty seconds of the steady clock, in nanoseconds.
def kIdleTimeout : Nat := 60 * 10 ^ 9

structure Chunk where
  data : Text
  nonempty : data ≠ []
  fits : data.length ≤ kChunkSize

-- What recv returns; `again` is EAGAIN, EWOULDBLOCK or EINTR.
inductive Received where
  | chunk (data : Chunk)
  | closed
  | again
  | failed

structure Event where
  stopRequested : Bool := false
  received : Received
  now : Nat

/-- The locals of handle_connection, with what the coming calls of send return and what
they have written. Beyond that list send takes whatever it is given. -/
structure Connection where
  buf : Text := []
  lastActivity : Nat
  sends : List Sent
  written : Text := []
  closed : Bool := false

-- The store's content, while nothing is published.
structure QueryServer where
  lists : ListOrder
  quotes : QuoteOrder
  history : List Publish

def QueryServer.handleLine (q : QueryServer) (line : Text) : Text :=
  text ((Net.handleLine q.lists q.quotes line).run q.history []).json

def newline : UInt8 := '\n'.toUInt8

def sendLoop : List Sent → Text → Text → List Sent × Text × Bool
  | sends, [], written => (sends, written, true)
  | [], data, written => ([], written ++ data, true)
  | .took 0 :: sends, _, written | .failed :: sends, _, written => (sends, written, false)
  | .again :: sends, data, written => sendLoop sends data written
  | .took n :: sends, data, written => sendLoop sends (data.drop n) (written ++ data.take n)

def sendAll (c : Connection) (data : Text) : Connection × Bool :=
  let sent := sendLoop c.sends data c.written
  ({ c with sends := sent.1, written := sent.2.1 }, sent.2.2)

def stripCr (line : Text) : Text := if line.getLast? = some '\r'.toUInt8 then line.dropLast else line

-- buf.find, then substr and erase
def takeLine (buf : Text) : Option (Text × Text) :=
  match buf.idxOf? newline with
  | none => none
  | some nl => some (buf.take nl, buf.drop (nl + 1))

def lineLoop (q : QueryServer) : Nat → Connection → Connection
  | 0, c => c
  | fuel + 1, c =>
    match takeLine c.buf with
    | none => c
    | some (line, buf) =>
      let c := { c with buf }
      let line := stripCr line
      if line = [] then lineLoop q fuel c
      else
        let sent := sendAll c (q.handleLine line ++ [newline])
        if sent.2 then lineLoop q fuel sent.1 else { sent.1 with closed := true }

def QueryServer.arrived (q : QueryServer) (c : Connection) (data : Text) : Connection :=
  let c := lineLoop q (c.buf ++ data).length { c with buf := c.buf ++ data }
  if c.closed then c
  else if kMaxLineLen < c.buf.length then
    let sent := sendAll c (text (errorJson "request line too long") ++ [newline])
    { sent.1 with closed := true }
  else c

def QueryServer.round (q : QueryServer) (c : Connection) (e : Event) : Connection :=
  if c.closed then c
  else if e.stopRequested then { c with closed := true }
  else
    match e.received with
    | .chunk data => q.arrived { c with lastActivity := e.now } data.data
    | .closed | .failed => { c with closed := true }
    | .again => if kIdleTimeout < e.now - c.lastActivity then { c with closed := true } else c

def QueryServer.handleConnection (q : QueryServer) (start : Nat) (sends : List Sent) (events : List Event) :
    Connection :=
  events.foldl q.round { lastActivity := start, sends }

def Obliging (sends : List Sent) : Prop := ∀ sent ∈ sends, sent ≠ .failed ∧ sent ≠ .took 0

theorem sendLoop_obliging {sends : List Sent} (obliging : Obliging sends) (data written : Text) :
    ∃ later, sendLoop sends data written = (later, written ++ data, true) ∧ Obliging later := by
  induction sends generalizing data written with
  | nil =>
    cases data with
    | nil => exact ⟨[], by simp [sendLoop], obliging⟩
    | cons b data => exact ⟨[], rfl, obliging⟩
  | cons sent later ih =>
    have rest : Obliging later := fun sent inside => obliging sent (List.mem_cons_of_mem _ inside)
    obtain ⟨unfailed, nonzero⟩ := obliging sent List.mem_cons_self
    cases data with
    | nil => exact ⟨sent :: later, by simp [sendLoop], obliging⟩
    | cons b data =>
      cases sent with
      | failed => exact absurd rfl unfailed
      | again => exact ih rest _ _
      | took n =>
        obtain ⟨n, rfl⟩ : ∃ k, n = k + 1 := Nat.exists_eq_succ_of_ne_zero fun zero => nonzero (zero ▸ rfl)
        have whole := ih rest ((b :: data).drop (n + 1)) (written ++ (b :: data).take (n + 1))
        rw [List.append_assoc, List.take_append_drop] at whole
        exact whole

theorem sendAll_obliging {c : Connection} (obliging : Obliging c.sends) (data : Text) :
    ∃ later, Obliging later ∧ sendAll c data = ({ c with sends := later, written := c.written ++ data }, true) := by
  obtain ⟨later, sent, rest⟩ := sendLoop_obliging obliging data c.written
  exact ⟨later, rest, by simp [sendAll, sent]⟩

theorem takeLine_plain {buf : Text} (plain : newline ∉ buf) : takeLine buf = none := by
  rw [takeLine, List.idxOf?_eq_none_iff.mpr plain]

theorem takeLine_line {line : Text} (plain : newline ∉ line) (buf : Text) :
    takeLine (line ++ newline :: buf) = some (line, buf) := by
  have found : (line ++ newline :: buf).idxOf? newline = some line.length := by
    rw [List.idxOf?_eq_some_iff]
    refine ⟨by simp, by simp, fun j before here => ?_⟩
    rw [List.getElem_append_left before] at here
    exact plain (here ▸ List.getElem_mem before)
  have behind : (line ++ newline :: buf).drop (line.length + 1) = buf := by
    rw [← List.drop_drop, List.drop_left, List.drop_one, List.tail_cons]
  rw [takeLine, found]
  simp only [List.take_left, behind]

def QueryServer.reply (q : QueryServer) (line : Text) : Text :=
  if stripCr line = [] then [] else q.handleLine (stripCr line) ++ [newline]

def QueryServer.responses (q : QueryServer) (stream : Text) : Text :=
  (terminated newline stream).flatMap q.reply

theorem lineLoop_lines (q : QueryServer) (fuel : Nat) (c : Connection) (enough : c.buf.length ≤ fuel)
    (obliging : Obliging c.sends) :
    ∃ later, Obliging later ∧ lineLoop q fuel c =
      { c with buf := unfinished newline c.buf, sends := later, written := c.written ++ q.responses c.buf } := by
  obtain ⟨buf, lastActivity, sends, written, closed⟩ := c
  dsimp only at enough obliging ⊢
  induction buf using pieces_induction (d := newline) generalizing fuel sends written with
  | plain buf plain =>
    refine ⟨sends, obliging, ?_⟩
    cases fuel <;> simp [lineLoop, takeLine_plain plain, unfinished_plain plain, QueryServer.responses,
      terminated_plain plain]
  | first line buf plain ih =>
    simp only [List.length_append, List.length_cons] at enough
    obtain ⟨fuel, rfl⟩ : ∃ n, fuel = n + 1 := ⟨fuel - 1, by omega⟩
    simp only [lineLoop, takeLine_line plain, unfinished_line plain, QueryServer.responses, terminated_line plain,
      List.flatMap_cons, QueryServer.reply]
    by_cases blank : stripCr line = []
    · simpa [blank, QueryServer.responses] using ih fuel sends written (by omega) obliging
    · obtain ⟨rest, kind, sent⟩ := sendAll_obliging
        (c := ⟨buf, lastActivity, sends, written, closed⟩) obliging (q.handleLine (stripCr line) ++ [newline])
      obtain ⟨later, final, looped⟩ := ih fuel rest (written ++ (q.handleLine (stripCr line) ++ [newline]))
        (by omega) kind
      refine ⟨later, final, ?_⟩
      simp only [blank, if_false, sent, if_true, looped, QueryServer.responses, List.append_assoc]

def Event.data (e : Event) : Text :=
  match e.received with
  | .chunk data => data.data
  | .closed | .again | .failed => []

def arrivals (events : List Event) : Text := events.flatMap Event.data

/-- Chunks and timeouts only, and no timeout after kIdleTimeout without a chunk. -/
def Patient : Nat → List Event → Prop
  | _, [] => True
  | last, e :: later => e.stopRequested = false ∧
    match e.received with
    | .chunk _ => Patient e.now later
    | .again => e.now - last ≤ kIdleTimeout ∧ Patient last later
    | .closed | .failed => False

def Event.Ordinary (e : Event) : Prop :=
  e.stopRequested = false ∧
    match e.received with
    | .chunk _ | .again => True
    | .closed | .failed => False

structure Framed (q : QueryServer) (stream : Text) (c : Connection) : Prop where
  rest : c.buf = unfinished newline stream
  answered : c.written = q.responses stream
  opened : c.closed = false
  sending : Obliging c.sends

theorem responses_append (q : QueryServer) (stream more : Text) :
    q.responses (stream ++ more) = q.responses stream ++ q.responses (unfinished newline stream ++ more) := by
  rw [QueryServer.responses, terminated_append, List.flatMap_append]
  rfl

theorem arrived_framed {q : QueryServer} {stream : Text} {c : Connection} (framed : Framed q stream c) (data : Text)
    (fits : (unfinished newline (stream ++ data)).length ≤ kMaxLineLen) :
    Framed q (stream ++ data) (q.arrived c data) ∧ (q.arrived c data).lastActivity = c.lastActivity := by
  obtain ⟨rest, answered, opened, sending⟩ := framed
  obtain ⟨later, obliging, looped⟩ :=
    lineLoop_lines q (c.buf ++ data).length { c with buf := c.buf ++ data } (Nat.le_refl _) sending
  have carried : unfinished newline (c.buf ++ data) = unfinished newline (stream ++ data) := by
    rw [rest, ← unfinished_append]
  have short : ¬kMaxLineLen < (unfinished newline (c.buf ++ data)).length := by
    rw [carried]
    omega
  have done : q.arrived c data = { c with
      buf := unfinished newline (c.buf ++ data), sends := later,
      written := c.written ++ q.responses (c.buf ++ data) } := by
    simp only [QueryServer.arrived, looped]
    simp only [opened, Bool.false_eq_true, if_false, short]
  rw [done]
  refine ⟨⟨carried, ?_, opened, obliging⟩, rfl⟩
  change c.written ++ q.responses (c.buf ++ data) = q.responses (stream ++ data)
  rw [answered, rest, ← responses_append]

theorem rounds_framed {q : QueryServer} {events : List Event} {stream : Text} {c : Connection}
    (framed : Framed q stream c) (patient : Patient c.lastActivity events)
    (short : ∀ line ∈ (stream ++ arrivals events).splitOn newline, line.length ≤ kMaxLineLen) :
    Framed q (stream ++ arrivals events) (events.foldl q.round c) := by
  induction events generalizing stream c with
  | nil => simpa [arrivals] using framed
  | cons e later ih =>
    obtain ⟨stopRequested, received, now⟩ := e
    obtain ⟨running, patient⟩ := patient
    obtain rfl : stopRequested = false := running
    have opened := framed.opened
    cases received with
    | closed => exact patient.elim
    | failed => exact patient.elim
    | again =>
      obtain ⟨active, patient⟩ : now - c.lastActivity ≤ kIdleTimeout ∧ Patient c.lastActivity later := patient
      have idle : ¬kIdleTimeout < now - c.lastActivity := by omega
      have kept : q.round c ⟨false, .again, now⟩ = c := by simp [QueryServer.round, opened, idle]
      rw [List.foldl_cons, kept]
      exact ih framed patient short
    | chunk data =>
      have whole : stream ++ arrivals (⟨false, .chunk data, now⟩ :: later) =
          stream ++ data.data ++ arrivals later := by simp [arrivals, Event.data]
      rw [whole] at short ⊢
      obtain ⟨line, among, begins⟩ := unfinished_begins (d := newline) (stream ++ data.data) (arrivals later)
      have fits := Nat.le_trans begins.length_le (short line among)
      have heard : Framed q stream { c with lastActivity := now } :=
        ⟨framed.rest, framed.answered, opened, framed.sending⟩
      obtain ⟨next, active⟩ := arrived_framed heard data.data fits
      have stepped : q.round c ⟨false, .chunk data, now⟩ = q.arrived { c with lastActivity := now } data.data := by
        simp [QueryServer.round, opened]
      rw [List.foldl_cons, stepped]
      exact ih next (active ▸ patient) short

/-- However recv cuts the stream and whenever it times out (but not for longer than
kIdleTimeout at a time), what has been written are the responses to the terminated
lines, and the connection is open until the client closes it. -/
theorem connection_answers_lines (q : QueryServer) (start : Nat) (sends : List Sent) (events : List Event)
    (obliging : Obliging sends) (patient : Patient start events)
    (short : ∀ line ∈ (arrivals events).splitOn newline, line.length ≤ kMaxLineLen) :
    (q.handleConnection start sends events).written = q.responses (arrivals events) ∧
    (q.handleConnection start sends events).closed = false ∧
    ∀ now, (q.handleConnection start sends (events ++ [{ received := .closed, now }])).written =
        q.responses (arrivals events) ∧
      (q.handleConnection start sends (events ++ [{ received := .closed, now }])).closed = true := by
  have fresh : Framed q [] { lastActivity := start, sends } := ⟨rfl, rfl, rfl, obliging⟩
  have framed : Framed q (arrivals events) (q.handleConnection start sends events) :=
    rounds_framed fresh patient short
  refine ⟨framed.answered, framed.opened, fun now => ?_⟩
  rw [QueryServer.handleConnection, List.foldl_append]
  change (q.round (q.handleConnection start sends events) _).written = _ ∧
    (q.round (q.handleConnection start sends events) _).closed = true
  simp [QueryServer.round, framed.opened, framed.answered]

-- A line in two chunks with a timeout 300 ms after the first.
theorem connection_answers_lines_split :
    (QueryServer.handleConnection ⟨.dataVersionRefs, .versionRefs, []⟩ 0 [.again, .took 3]
      [⟨false, .chunk ⟨text "lis", by decide +kernel, by decide +kernel⟩, 10⟩, ⟨false, .again, 3 * 10 ^ 8⟩,
        ⟨false, .chunk ⟨text "t\r\n", by decide +kernel, by decide +kernel⟩, 4 * 10 ^ 8⟩]).written =
      QueryServer.responses ⟨.dataVersionRefs, .versionRefs, []⟩ (text "list\r\n") :=
  (connection_answers_lines ⟨.dataVersionRefs, .versionRefs, []⟩ 0 [.again, .took 3] _ (by simp [Obliging])
    (by simp [Patient, kIdleTimeout]) (by decide +kernel)).1

-- Half a line, then 201 timeouts of 300 ms each: the connection is closed, and the
-- newline that comes next gets no answer.
theorem idle_line_unanswered :
    ¬∀ (q : QueryServer) (start : Nat) (sends : List Sent) (events : List Event), Obliging sends →
      (∀ e ∈ events, e.Ordinary) → (∀ line ∈ (arrivals events).splitOn newline, line.length ≤ kMaxLineLen) →
      (q.handleConnection start sends events).written = q.responses (arrivals events) := by
  intro answered
  let timeouts : List Event := (List.range 201).map fun n => ⟨false, .again, (n + 1) * 3 * 10 ^ 8⟩
  let events : List Event := ⟨false, .chunk ⟨text "x", by decide +kernel, by decide +kernel⟩, 0⟩ :: timeouts ++
    [⟨false, .chunk ⟨text "\n", by decide +kernel, by decide +kernel⟩, 604 * 10 ^ 8⟩]
  have ordinary : ∀ e ∈ events, e.Ordinary := by
    intro e inside
    simp only [events, timeouts, List.cons_append, List.mem_cons, List.mem_append, List.mem_map,
      List.not_mem_nil, or_false] at inside
    rcases inside with rfl | ⟨n, -, rfl⟩ | rfl <;> exact ⟨rfl, trivial⟩
  have wrong := answered ⟨.dataVersionRefs, .versionRefs, []⟩ 0 [] events (by simp [Obliging]) ordinary
    (by decide +kernel)
  revert wrong
  decide +kernel

end ItchLob.Net
