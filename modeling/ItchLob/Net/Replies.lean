import ItchLob.Net.QueryConnection
import ItchLob.Net.QueryConsistency
import ItchLob.Shared.Json

set_option autoImplicit false

namespace ItchLob.Net

open Pipeline QueryWire Delimited

def key (s : String) : Json.Plain := .of (text s)

def shown (has : Bool) (n : Nat) : Json.Value := if has then .number n else .null

def snapshotFields (q : LocateSnapshot) : List (Json.Plain × Json.Value) :=
  [(key "locate", .number q.locate.toNat),
    (key "best_bid", shown q.hasBid q.bidPrice.toNat),
    (key "best_bid_shares", shown q.hasBid q.bidShares.toNat),
    (key "best_ask", shown q.hasAsk q.askPrice.toNat),
    (key "best_ask_shares", shown q.hasAsk q.askShares.toNat),
    (key "open_orders", .number q.openOrders),
    (key "bid_levels", .number q.bidLevels),
    (key "ask_levels", .number q.askLevels)]

def Reply.value : Reply → Json.Value
  | .error msg => .object [(key "error", .string (key msg))]
  | .errorLocate msg locate => .object [(key "error", .string (key msg)), (key "locate", .number locate.toNat)]
  | .quote q snapshotVersion unknownRefs =>
    .object (snapshotFields q ++ [(key "snapshot_version", .number snapshotVersion.toNat),
      (key "unknown_refs", .number unknownRefs.toNat)])
  | .list all snapshotVersion unknownRefs =>
    .object [(key "snapshot_version", .number snapshotVersion.toNat), (key "unknown_refs", .number unknownRefs.toNat),
      (key "books", .array (all.map fun q => .object (snapshotFields q)))]

-- A message goes into the reply as it is, without an escape.
def Reply.bare : Reply → Bool
  | .error msg | .errorLocate msg _ => (text msg).all Json.bare
  | .quote _ _ _ | .list _ _ _ => true

theorem text_append (s t : String) : text (s ++ t) = text s ++ text t := by
  rw [text, String.toList_append, List.map_append, text, text]

theorem text_toString (n : Nat) : text (toString n) = (Json.Value.number n).render := by
  rw [text, Nat.toString_eq_repr, Nat.toList_repr, Json.Value.render, Json.digits]

theorem quoted_key {s : String} (free : (text s).all Json.bare = true) :
    Json.quoted (key s) = '"'.toUInt8 :: text s ++ ['"'.toUInt8] := by
  have kept : (key s).text = text s := List.filter_eq_self.mpr (List.all_eq_true.mp free)
  rw [Json.quoted, kept]

theorem shown_text (has : Bool) (n : Nat) : text (optional has (toString n)) = (shown has n).render := by
  cases has with
  | false => rfl
  | true => exact text_toString n

theorem text_intercalate (parts : List String) :
    text (String.intercalate "," parts) = List.intercalate [','.toUInt8] (parts.map text) := by
  induction parts with
  | nil => rfl
  | cons s parts ih =>
    cases parts with
    | nil => simp
    | cons t parts =>
      rw [String.intercalate_cons_cons, text_append, text_append, ih]
      simp [List.intercalate_cons_cons, text]

theorem fieldTexts_snoc (fields : List (Json.Plain × Json.Value)) (name : Json.Plain) (value : Json.Value) :
    Json.fieldTexts (fields ++ [(name, value)]) =
      Json.fieldTexts fields ++ [Json.quoted name ++ ':'.toUInt8 :: value.render] := by
  induction fields with
  | nil => rfl
  | cons first rest ih => rw [List.cons_append, Json.fieldTexts, ih, Json.fieldTexts, List.cons_append]

theorem intercalate_snoc {texts : List Text} (some_text : texts ≠ []) (t : Text) :
    List.intercalate [','.toUInt8] (texts ++ [t]) = List.intercalate [','.toUInt8] texts ++ ','.toUInt8 :: t := by
  induction texts with
  | nil => exact absurd rfl some_text
  | cons u texts ih =>
    cases texts with
    | nil => simp [List.intercalate_cons_cons]
    | cons w texts =>
      rw [List.cons_append, List.cons_append, List.intercalate_cons_cons, ← List.cons_append, ih (by simp),
        List.intercalate_cons_cons, List.append_assoc _ _ (_ :: _)]

def Listed (opening : Text) (written : String) (fields : List (Json.Plain × Json.Value)) : Prop :=
  text written = opening ++ List.intercalate [','.toUInt8] (Json.fieldTexts fields)

section Listed

variable {opening : Text} {before : String} {fields : List (Json.Plain × Json.Value)} {s label value : String}
  {v : Json.Value}

variable (s label) in
theorem listed_first (named : text label = opening ++ (Json.quoted (key s) ++ [':'.toUInt8]))
    (told : text value = v.render) : Listed opening (label ++ value) [(key s, v)] := by
  rw [Listed, text_append, named, told, Json.fieldTexts, Json.fieldTexts, List.intercalate_singleton]
  simp

variable (s label) in
theorem Listed.link (listed : Listed opening before fields) (some_field : fields ≠ [])
    (named : text label = ','.toUInt8 :: (Json.quoted (key s) ++ [':'.toUInt8])) (told : text value = v.render) :
    Listed opening (before ++ label ++ value) (fields ++ [(key s, v)]) := by
  have some_text : Json.fieldTexts fields ≠ [] := by
    cases fields with
    | nil => exact absurd rfl some_field
    | cons first rest => exact List.cons_ne_nil _ _
  rw [Listed, text_append, text_append, listed, named, told, fieldTexts_snoc, intercalate_snoc some_text]
  simp

variable (s label) in
theorem Listed.more (listed : Listed opening before fields) (some_field : fields ≠ [])
    (named : text label = Json.quoted (key s) ++ [':'.toUInt8]) (told : text value = v.render) :
    Listed opening (before ++ "," ++ label ++ value) (fields ++ [(key s, v)]) := by
  have linked : text ("," ++ label) = ','.toUInt8 :: (Json.quoted (key s) ++ [':'.toUInt8]) := by
    rw [text_append, named]
    rfl
  rw [show before ++ "," ++ label = before ++ ("," ++ label) from String.append_assoc]
  exact listed.link s ("," ++ label) some_field linked told

end Listed

theorem quoteFields_listed (q : LocateSnapshot) : Listed [] (quoteFields q) (snapshotFields q) := by
  have locate : Listed [] _ _ := listed_first "locate" "\"locate\":" (by decide) (text_toString q.locate.toNat)
  have bid := locate.more "best_bid" "\"best_bid\":" (by simp) (by decide) (shown_text q.hasBid q.bidPrice.toNat)
  have bidShares := bid.more "best_bid_shares" "\"best_bid_shares\":" (by simp) (by decide)
    (shown_text q.hasBid q.bidShares.toNat)
  have ask := bidShares.more "best_ask" "\"best_ask\":" (by simp) (by decide) (shown_text q.hasAsk q.askPrice.toNat)
  have askShares := ask.more "best_ask_shares" "\"best_ask_shares\":" (by simp) (by decide)
    (shown_text q.hasAsk q.askShares.toNat)
  have orders := askShares.more "open_orders" "\"open_orders\":" (by simp) (by decide) (text_toString q.openOrders)
  have bids := orders.more "bid_levels" "\"bid_levels\":" (by simp) (by decide) (text_toString q.bidLevels)
  exact bids.more "ask_levels" "\"ask_levels\":" (by simp) (by decide) (text_toString q.askLevels)

theorem snapshotFields_ne_nil (q : LocateSnapshot) : snapshotFields q ≠ [] := List.cons_ne_nil _ _

theorem object_text {written : String} {fields : List (Json.Plain × Json.Value)}
    (listed : Listed ['\x7b'.toUInt8] written fields) :
    text (written ++ "\x7d") = (Json.Value.object fields).render := by
  rw [text_append, listed, Json.Value.render, Json.between]
  rfl

theorem regroup (a b c d e : String) : a ++ b ++ c ++ (d ++ e) = a ++ (b ++ c ++ d) ++ e := by
  simp only [String.append_assoc]

theorem regroup_array (a b c d e f : String) : a ++ (b ++ c) ++ d ++ (e ++ f) = a ++ b ++ (c ++ d ++ e) ++ f := by
  simp only [String.append_assoc]

theorem text_word (n : UInt64) : text (toString n) = (Json.Value.number n.toNat).render := text_toString n.toNat

theorem opened_fields (q : LocateSnapshot) : Listed ['\x7b'.toUInt8] ("\x7b" ++ quoteFields q) (snapshotFields q) := by
  rw [Listed, text_append, quoteFields_listed q]
  rfl

theorem quoteJson_text (q : LocateSnapshot) (snapshotVersion unknownRefs : UInt64) :
    text (quoteJson q snapshotVersion unknownRefs) = (Reply.quote q snapshotVersion unknownRefs).value.render := by
  have version := (opened_fields q).link "snapshot_version" ",\"snapshot_version\":" (snapshotFields_ne_nil q)
    (by decide) (text_word snapshotVersion)
  have refs := version.link "unknown_refs" ",\"unknown_refs\":" (by simp) (by decide) (text_word unknownRefs)
  rw [quoteJson, object_text refs, Reply.value, List.append_assoc, List.singleton_append]

theorem itemTexts_objects (all : List LocateSnapshot) :
    Json.itemTexts (all.map fun q => .object (snapshotFields q)) =
      (all.map fun q => "\x7b" ++ quoteFields q ++ "\x7d").map text := by
  induction all with
  | nil => rfl
  | cons q all ih =>
    rw [List.map_cons, Json.itemTexts, ih, List.map_cons, List.map_cons, object_text (opened_fields q)]

theorem listJson_text (all : List LocateSnapshot) (snapshotVersion unknownRefs : UInt64) :
    text (listJson all snapshotVersion unknownRefs) = (Reply.list all snapshotVersion unknownRefs).value.render := by
  have version : Listed ['\x7b'.toUInt8] _ _ :=
    listed_first "snapshot_version" "\x7b\"snapshot_version\":" (by decide) (text_word snapshotVersion)
  have refs := version.link "unknown_refs" ",\"unknown_refs\":" (by simp) (by decide) (text_word unknownRefs)
  have array : text ("[" ++ String.intercalate "," (all.map fun q => "\x7b" ++ quoteFields q ++ "\x7d") ++ "]") =
      (Json.Value.array (all.map fun q => .object (snapshotFields q))).render := by
    rw [text_append, text_append, text_intercalate, Json.Value.render, itemTexts_objects, Json.between]
    rfl
  have books := refs.link "books" ",\"books\":" (by simp) (by decide) array
  refine .trans (congrArg text ?_) (object_text books)
  have opening : ",\"books\":[" = ",\"books\":" ++ "[" := by decide
  have closing : "]\x7d" = "]" ++ "\x7d" := by decide
  unfold listJson
  rw [opening, closing]
  exact regroup_array _ _ _ _ _ _

theorem message_text {msg : String} (free : (text msg).all Json.bare = true) :
    text ("\"" ++ msg ++ "\"") = (Json.Value.string (key msg)).render := by
  rw [text_append, text_append, Json.Value.render, quoted_key free]
  rfl

theorem errorJson_text {msg : String} (free : (text msg).all Json.bare = true) :
    text (errorJson msg) = (Reply.error msg).value.render := by
  have error : Listed ['\x7b'.toUInt8] _ _ :=
    listed_first "error" "\x7b\"error\":" (by decide) (message_text free)
  refine .trans (congrArg text ?_) (object_text error)
  rw [errorJson, show "\x7b\"error\":\"" = "\x7b\"error\":" ++ "\"" by decide,
    show "\"\x7d" = "\"" ++ "\x7d" by decide, regroup]

theorem errorJsonLocate_text {msg : String} (free : (text msg).all Json.bare = true) (locate : UInt16) :
    text (errorJsonLocate msg locate) = (Reply.errorLocate msg locate).value.render := by
  have error : Listed ['\x7b'.toUInt8] _ _ :=
    listed_first "error" "\x7b\"error\":" (by decide) (message_text free)
  have located := error.link "locate" ",\"locate\":" (by simp) (by decide) (text_toString locate.toNat)
  refine .trans (congrArg text ?_) (object_text located)
  rw [errorJsonLocate, show "\x7b\"error\":\"" = "\x7b\"error\":" ++ "\"" by decide,
    show "\",\"locate\":" = "\"" ++ ",\"locate\":" by decide, regroup]
  rfl

theorem reply_text {reply : Reply} (free : reply.bare = true) : text reply.json = reply.value.render := by
  cases reply with
  | error msg => exact errorJson_text free
  | errorLocate msg locate => exact errorJsonLocate_text free locate
  | quote q snapshotVersion unknownRefs => exact quoteJson_text q snapshotVersion unknownRefs
  | list all snapshotVersion unknownRefs => exact listJson_text all snapshotVersion unknownRefs

theorem handleLine_bare (lists : ListOrder) (quotes : QuoteOrder) (line : Text) (past : List Publish)
    (gaps : List (List Publish)) : ((handleLine lists quotes line).run past gaps).bare = true := by
  have refused : ∀ msg, requestOf line = .refused msg → (text msg).all Json.bare = true := by
    intro msg asked
    unfold requestOf at asked
    split at asked
    · cases asked
      decide
    · split_ifs at asked
      · split at asked
        · cases asked
          decide
        · cases asked
      · cases asked
        decide
  rw [handleLine_request]
  cases asked : requestOf line with
  | refused msg => exact refused msg asked
  | list => cases lists <;> rfl
  | quote locate =>
    simp only [Reader.run]
    cases (published (past ++ gaps.headD [])).find locate with
    | none => exact (by decide : (text "unknown locate").all Json.bare = true)
    | some q => cases quotes <;> rfl

end ItchLob.Net
