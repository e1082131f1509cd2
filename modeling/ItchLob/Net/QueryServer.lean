import ItchLob.Pipeline.BookSnapshot

set_option autoImplicit false

namespace ItchLob.Net

open Pipeline

namespace QueryWire

-- A std::string is its list of bytes.
abbrev Text := List UInt8

def text (s : String) : Text := s.toList.map Char.toUInt8

def afterFirst (needle : Text) : Text → Option Text
  | [] => if needle = [] then some [] else none
  | c :: rest =>
    if needle.isPrefixOf (c :: rest) then some ((c :: rest).drop needle.length) else afterFirst needle rest

def skipBlanks (s : Text) : Text := s.dropWhile fun c => c = ' '.toUInt8 || c = '\t'.toUInt8

def afterKey (s key : Text) : Option Text :=
  match afterFirst (['"'.toUInt8] ++ key ++ ['"'.toUInt8]) s with
  | none => none
  | some rest =>
    match skipBlanks rest with
    | [] => none
    | c :: rest => if c = ':'.toUInt8 then some (skipBlanks rest) else none

def extractStringField (s key : Text) : Option Text :=
  match afterKey s key with
  | none | some [] => none
  | some (c :: rest) =>
    if c ≠ '"'.toUInt8 then none
    else if '"'.toUInt8 ∈ rest then some (rest.takeWhile fun c => c ≠ '"'.toUInt8)
    else none

def isDigit (c : UInt8) : Bool := '0'.toUInt8 ≤ c && c ≤ '9'.toUInt8

-- std::stoull on a string of digits; out of range throws.
def stoull (digits : Text) : Option UInt64 :=
  let value := digits.foldl (fun n c => n * 10 + (c.toNat - '0'.toNat)) 0
  if value < 2 ^ 64 then some (UInt64.ofNat value) else none

def extractUintField (s key : Text) : Option UInt64 :=
  match afterKey s key with
  | none => none
  | some rest =>
    let digits := rest.takeWhile isDigit
    if digits = [] then none else stoull digits

def optional (shown : Bool) (value : String) : String := if shown then value else "null"

def quoteFields (q : LocateSnapshot) : String :=
  "\"locate\":" ++ toString q.locate ++ "," ++
  "\"best_bid\":" ++ optional q.hasBid (toString q.bidPrice) ++ "," ++
  "\"best_bid_shares\":" ++ optional q.hasBid (toString q.bidShares) ++ "," ++
  "\"best_ask\":" ++ optional q.hasAsk (toString q.askPrice) ++ "," ++
  "\"best_ask_shares\":" ++ optional q.hasAsk (toString q.askShares) ++ "," ++
  "\"open_orders\":" ++ toString q.openOrders ++ "," ++
  "\"bid_levels\":" ++ toString q.bidLevels ++ "," ++
  "\"ask_levels\":" ++ toString q.askLevels

def quoteJson (q : LocateSnapshot) (snapshotVersion unknownRefs : UInt64) : String :=
  "\x7b" ++ quoteFields q ++ ",\"snapshot_version\":" ++ toString snapshotVersion ++
    ",\"unknown_refs\":" ++ toString unknownRefs ++ "\x7d"

def listJson (all : List LocateSnapshot) (snapshotVersion unknownRefs : UInt64) : String :=
  "\x7b\"snapshot_version\":" ++ toString snapshotVersion ++ ",\"unknown_refs\":" ++
    toString unknownRefs ++ ",\"books\":[" ++
    String.intercalate "," (all.map fun q => "\x7b" ++ quoteFields q ++ "\x7d") ++ "]\x7d"

def errorJson (msg : String) : String := "\x7b\"error\":\"" ++ msg ++ "\"\x7d"

def errorJsonLocate (msg : String) (locate : UInt16) : String :=
  "\x7b\"error\":\"" ++ msg ++ "\",\"locate\":" ++ toString locate ++ "\x7d"

end QueryWire

open QueryWire

inductive Reply where
  | error (msg : String)
  | errorLocate (msg : String) (locate : UInt16)
  | quote (q : LocateSnapshot) (snapshotVersion unknownRefs : UInt64)
  | list (all : List LocateSnapshot) (snapshotVersion unknownRefs : UInt64)
  deriving DecidableEq, Repr

def Reply.json : Reply → String
  | .error msg => errorJson msg
  | .errorLocate msg locate => errorJsonLocate msg locate
  | .quote q snapshotVersion unknownRefs => quoteJson q snapshotVersion unknownRefs
  | .list all snapshotVersion unknownRefs => listJson all snapshotVersion unknownRefs

/-- Code that reads the store, one locked call at a time. -/
inductive Reader (α : Type) where
  | done (result : α)
  | readAll (next : List LocateSnapshot → Reader α)
  | find (locate : UInt16) (next : Option LocateSnapshot → Reader α)
  | version (next : UInt64 → Reader α)
  | unknownRefs (next : UInt64 → Reader α)

/-- Before each call the publisher gets in with the next batch of publishes. -/
def Reader.run {α : Type} : Reader α → List Publish → List (List Publish) → α
  | .done result, _, _ => result
  | .readAll next, history, gaps =>
    (next (published (history ++ gaps.headD [])).readAll).run (history ++ gaps.headD []) gaps.tail
  | .find locate next, history, gaps =>
    (next ((published (history ++ gaps.headD [])).find locate)).run (history ++ gaps.headD []) gaps.tail
  | .version next, history, gaps =>
    (next (published (history ++ gaps.headD [])).version).run (history ++ gaps.headD []) gaps.tail
  | .unknownRefs next, history, gaps =>
    (next (published (history ++ gaps.headD [])).unknownRefs).run (history ++ gaps.headD []) gaps.tail

-- The order in which the arguments of list_json are evaluated is unspecified.
inductive ListOrder where
  | dataVersionRefs
  | dataRefsVersion
  | versionDataRefs
  | versionRefsData
  | refsDataVersion
  | refsVersionData
  deriving DecidableEq, Repr

-- The same for quote_json; the snapshot is found before.
inductive QuoteOrder where
  | versionRefs
  | refsVersion
  deriving DecidableEq, Repr

def listReply : ListOrder → Reader Reply
  | .dataVersionRefs => .readAll fun d => .version fun v => .unknownRefs fun u => .done (.list d v u)
  | .dataRefsVersion => .readAll fun d => .unknownRefs fun u => .version fun v => .done (.list d v u)
  | .versionDataRefs => .version fun v => .readAll fun d => .unknownRefs fun u => .done (.list d v u)
  | .versionRefsData => .version fun v => .unknownRefs fun u => .readAll fun d => .done (.list d v u)
  | .refsDataVersion => .unknownRefs fun u => .readAll fun d => .version fun v => .done (.list d v u)
  | .refsVersionData => .unknownRefs fun u => .version fun v => .readAll fun d => .done (.list d v u)

def quoteReply (q : LocateSnapshot) : QuoteOrder → Reader Reply
  | .versionRefs => .version fun v => .unknownRefs fun u => .done (.quote q v u)
  | .refsVersion => .unknownRefs fun u => .version fun v => .done (.quote q v u)

def handleLine (lists : ListOrder) (quotes : QuoteOrder) (line : Text) : Reader Reply :=
  match extractStringField line (text "cmd") with
  | none => .done (.error "bad request")
  | some cmd =>
    if cmd = text "list" then listReply lists
    else if cmd = text "quote" then
      match extractUintField line (text "locate") with
      | none => .done (.error "missing locate")
      | some field =>
        .find field.toUInt16 fun snap =>
          match snap with
          | none => .done (.errorLocate "unknown locate" field.toUInt16)
          | some q => quoteReply q quotes
    else .done (.error "unknown command")

end ItchLob.Net
