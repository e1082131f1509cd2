import ItchLob.Net.QueryConnection

set_option autoImplicit false

namespace ItchLob.Net

open QueryWire

-- What a connection's thread does next: test the flag, call recv, call send on what
-- send_all has left (after `last` it closes), or nothing that touches the socket.
inductive Doing where
  | testing
  | receiving
  | sending (left : Text) (last : Bool)
  | closed
  deriving DecidableEq, Repr

-- The locals of handle_connection between two of its calls, and what send has taken.
structure Talk where
  buf : Text := []
  lastActivity : Nat
  written : Text := []
  doing : Doing := .testing

def Talk.closed (t : Talk) : Bool := t.doing = .closed

namespace QueryServer

-- The lines up to the first that is answered, and its response.
def nextReply (q : QueryServer) : Nat → Text → Text × Option Text
  | 0, buf => (buf, none)
  | fuel + 1, buf =>
    match takeLine buf with
    | none => (buf, none)
    | some (line, rest) =>
      if stripCr line = [] then nextReply q fuel rest
      else (rest, some (q.handleLine (stripCr line) ++ [newline]))

def tooLong : Text := text (errorJson "request line too long") ++ [newline]

-- The inner loop up to its next send, or the end of this round.
def goesOn (q : QueryServer) (t : Talk) : Talk :=
  let next := q.nextReply t.buf.length t.buf
  { t with
    buf := next.1
    doing :=
      match next.2 with
      | some response => .sending response false
      | none => if kMaxLineLen < next.1.length then .sending tooLong true else .testing }

def receives (q : QueryServer) (t : Talk) (e : Event) : Talk :=
  match e.received with
  | .chunk data => q.goesOn { t with buf := t.buf ++ data.data, lastActivity := e.now }
  | .closed | .failed => { t with doing := .closed }
  | .again => { t with doing := if kIdleTimeout < e.now - t.lastActivity then .closed else .testing }

def sends (q : QueryServer) (t : Talk) (left : Text) (last : Bool) : Sent → Talk
  | .again => t
  | .failed | .took 0 => { t with doing := .closed }
  | .took n =>
    let t := { t with written := t.written ++ left.take n }
    if left.drop n ≠ [] then { t with doing := .sending (left.drop n) last }
    else if last then { t with doing := .closed }
    else q.goesOn t

-- A send that has not come back leaves the thread where it is.
def turn (q : QueryServer) (t : Talk) (e : Event) (sent : Option Sent) : Talk :=
  match t.doing with
  | .closed => t
  | .testing => { t with doing := if e.stopRequested then .closed else .receiving }
  | .receiving => q.receives t e
  | .sending left last =>
    match sent with
    | none => t
    | some sent => q.sends t left last sent

end QueryServer

/-- Turns whose sends return what is listed, in this order, and behind the list take bytes. -/
def Plays (q : QueryServer) (e : Event) (sends : List Sent) (t : Talk) (rest : List Sent) (t' : Talk) : Prop :=
  ∃ used more, sends = used ++ rest ∧ (more ≠ [] → rest = []) ∧ (∀ sent ∈ more, ∃ n, sent = .took n) ∧
    t' = (used ++ more).foldl (fun t sent => q.turn t e (some sent)) t

section Rounds

variable {q : QueryServer} {e : Event} {sends mid rest : List Sent} {t t' t'' : Talk}

theorem Plays.refl (q : QueryServer) (e : Event) (sends : List Sent) (t : Talk) : Plays q e sends t sends t :=
  ⟨[], [], rfl, fun some => absurd rfl some, nofun, rfl⟩

theorem Plays.trans (first : Plays q e sends t mid t') (second : Plays q e mid t' rest t'') :
    Plays q e sends t rest t'' := by
  obtain ⟨used, more, rfl, exhausted, takes, rfl⟩ := first
  obtain ⟨used', more', rfl, exhausted', takes', rfl⟩ := second
  by_cases none : more = []
  · exact ⟨used ++ used', more', (List.append_assoc ..).symm, exhausted', takes', by simp [none, List.foldl_append]⟩
  · obtain ⟨rfl, rfl⟩ := List.append_eq_nil_iff.mp (exhausted none)
    exact ⟨used, more ++ more', rfl, fun _ => rfl, List.forall_mem_append.mpr ⟨takes, takes'⟩,
      by simp [List.foldl_append]⟩

theorem Plays.sent (sent : Sent) (later : Plays q e sends (q.turn t e (some sent)) rest t') :
    Plays q e (sent :: sends) t rest t' := by
  refine Plays.trans ⟨[sent], [], rfl, fun some => absurd rfl some, nofun, rfl⟩ later

theorem takeLine_shorter {buf line behind : Text} (found : takeLine buf = some (line, behind)) :
    behind.length < buf.length := by
  unfold takeLine at found
  split at found
  next => cases found
  next nl here =>
    cases found
    have inside := (List.idxOf?_eq_some_iff.mp here).1
    rw [List.length_drop]
    omega

end Rounds

def begun (turns : List (Event × Option Sent)) : List Event := (turns.filter (·.2.isNone)).map Prod.fst

def returned (turns : List (Event × Option Sent)) : List Sent := turns.filterMap Prod.snd

end ItchLob.Net
