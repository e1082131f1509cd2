import ItchLob.Net.QueryServer

set_option autoImplicit false

namespace ItchLob.Net

namespace QueryWire

def quote : UInt8 := '"'.toUInt8

def quoted (s : Text) : Text := [quote] ++ s ++ [quote]

structure Blanks where
  text : Text
  blank : ∀ c ∈ text, c = ' '.toUInt8 ∨ c = '\t'.toUInt8

structure Spacing where
  beforeKey : Blanks
  beforeColon : Blanks
  beforeValue : Blanks
  afterValue : Blanks

def field (s : Spacing) (key value : Text) : Text :=
  s.beforeKey.text ++ quoted key ++ s.beforeColon.text ++ text ":" ++ s.beforeValue.text ++ value ++
    s.afterValue.text

def object (fields : List Text) : Text := text "\x7b" ++ List.intercalate (text ",") fields ++ text "\x7d"

def colonGap (s : Spacing) : Text := s.beforeColon.text ++ text ":" ++ s.beforeValue.text

def denotes (digits : Text) : Nat := Nat.ofDigits 10 (digits.map fun c => c.toNat - '0'.toNat).reverse

section Needle

variable {key token before rest : Text}

theorem afterFirst_skip (plain : quote ∉ before) :
    afterFirst (quoted key) (before ++ rest) = afterFirst (quoted key) rest := by
  induction before with
  | nil => rfl
  | cons c later ih =>
    rw [List.mem_cons, not_or] at plain
    have apart : (quoted key).isPrefixOf (c :: (later ++ rest)) = false := by
      simp [quoted, List.isPrefixOf, plain.1]
    rw [List.cons_append, afterFirst, apart, if_neg Bool.false_ne_true, ih plain.2]

theorem afterFirst_here : afterFirst (quoted key) (quoted key ++ rest) = some rest := by
  have found : (quoted key).isPrefixOf (quoted key ++ rest) = true := by
    rw [List.isPrefixOf_iff_prefix]
    exact List.prefix_append _ _
  have whole : quoted key ++ rest = quote :: (key ++ [quote] ++ rest) := by simp [quoted]
  rw [whole] at found ⊢
  rw [afterFirst, if_pos found, ← whole, List.drop_left]

theorem takeWhile_quote (plain : quote ∉ before) :
    (before ++ quote :: rest).takeWhile (fun c => c ≠ quote) = before := by
  rw [List.takeWhile_append_of_pos fun c inside => by
    simpa using fun here : c = quote => plain (here ▸ inside)]
  simp

-- Between two quotes the key is found only if it is what stands there.
theorem afterFirst_other (rest : Text) (plain : quote ∉ token) (unquoted : quote ∉ key) (other : token ≠ key) :
    afterFirst (quoted key) (quote :: (token ++ quote :: rest)) = afterFirst (quoted key) (quote :: rest) := by
  have apart : ¬(quoted key).isPrefixOf (quote :: (token ++ quote :: rest)) = true := by
    rw [List.isPrefixOf_iff_prefix]
    rintro ⟨tail, same⟩
    have inner : key ++ quote :: tail = token ++ quote :: rest := by simpa [quoted] using same
    have tokens := congrArg (List.takeWhile fun c => c ≠ quote) inner
    rw [takeWhile_quote unquoted, takeWhile_quote plain] at tokens
    exact other tokens.symm
  rw [afterFirst, if_neg apart, afterFirst_skip plain]

theorem afterFirst_token {gap next : Text} (plain : quote ∉ token) (unquoted : quote ∉ key) (other : token ≠ key)
    (bare : quote ∉ gap) (gapped : gap ≠ key) :
    afterFirst (quoted key) (quoted token ++ (gap ++ (quoted next ++ rest))) =
      afterFirst (quoted key) (quoted next ++ rest) := by
  have here := afterFirst_other (gap ++ quote :: (next ++ quote :: rest)) plain unquoted other
  have behind := afterFirst_other (next ++ quote :: rest) bare unquoted gapped
  have split : quoted token ++ (gap ++ (quoted next ++ rest)) =
      quote :: (token ++ quote :: (gap ++ quote :: (next ++ quote :: rest))) := by simp [quoted]
  rw [split, here, behind]
  simp [quoted]

theorem afterFirst_last (plain : quote ∉ rest) : afterFirst (quoted key) (quote :: rest) = none := by
  have apart : ¬(quoted key).isPrefixOf (quote :: rest) = true := by
    rw [List.isPrefixOf_iff_prefix]
    rintro ⟨tail, same⟩
    have inner : key ++ quote :: tail = rest := by simpa [quoted] using same
    exact plain (by simp [← inner])
  rw [afterFirst, if_neg apart, ← List.append_nil rest, afterFirst_skip plain]
  simp [afterFirst, quoted]

end Needle

section Value

variable {rest : Text} {c : UInt8}

theorem skipBlanks_blanks (b : Blanks) (solid : c ≠ ' '.toUInt8 ∧ c ≠ '\t'.toUInt8) :
    skipBlanks (b.text ++ c :: rest) = c :: rest := by
  rw [skipBlanks, List.dropWhile_append_of_pos fun d inside => by simpa using b.blank d inside]
  simp [solid]

theorem quote_blanks (b : Blanks) : quote ∉ b.text := by
  intro inside
  exact absurd (b.blank quote inside) (by decide)

variable {key value : Text} (s : Spacing)

theorem afterKey_field (solid : c ≠ ' '.toUInt8 ∧ c ≠ '\t'.toUInt8) {line : Text}
    (found : afterFirst (quoted key) line = some (colonGap s ++ c :: rest)) :
    afterKey line key = some (c :: rest) := by
  have colon : skipBlanks (s.beforeColon.text ++ ':'.toUInt8 :: (s.beforeValue.text ++ c :: rest)) =
      ':'.toUInt8 :: (s.beforeValue.text ++ c :: rest) := skipBlanks_blanks _ (by decide)
  have split : colonGap s ++ c :: rest = s.beforeColon.text ++ ':'.toUInt8 :: (s.beforeValue.text ++ c :: rest) := by
    simp [colonGap, text]
  rw [split] at found
  change afterFirst (['"'.toUInt8] ++ key ++ ['"'.toUInt8]) line = _ at found
  rw [afterKey, found]
  simp only [colon, if_true, skipBlanks_blanks _ solid]

theorem extractString_value {line cmd : Text} (plain : quote ∉ cmd)
    (found : afterKey line key = some (quoted cmd ++ rest)) : extractStringField line key = some cmd := by
  have split : quoted cmd ++ rest = '"'.toUInt8 :: (cmd ++ quote :: rest) := by simp [quoted, quote]
  have value : (cmd ++ quote :: rest).takeWhile (fun c => c ≠ '"'.toUInt8) = cmd := takeWhile_quote plain
  rw [extractStringField, found, split]
  simp only [ne_eq, not_true, if_false]
  rw [if_pos (by simp [quote]), value]

theorem foldl_denotes (digits : Text) (n : Nat) :
    digits.foldl (fun n c => n * 10 + (c.toNat - '0'.toNat)) n = n * 10 ^ digits.length + denotes digits := by
  induction digits generalizing n with
  | nil => simp [denotes]
  | cons c later ih =>
    rw [List.foldl_cons, ih, denotes, denotes, List.map_cons, List.reverse_cons, Nat.ofDigits_append,
      Nat.ofDigits_singleton, List.length_reverse, List.length_map, List.length_cons, Nat.pow_succ]
    ring

theorem extractUint_value {line digits : Text} (numeric : ∀ c ∈ digits, isDigit c = true) (nonempty : digits ≠ [])
    (found : afterKey line key = some (digits ++ rest)) (stops : ∀ c ∈ rest.head?, isDigit c = false) :
    extractUintField line key =
      if denotes digits < 2 ^ 64 then some (UInt64.ofNat (denotes digits)) else none := by
  have number : (digits ++ rest).takeWhile isDigit = digits := by
    rw [List.takeWhile_append_of_pos numeric]
    cases rest with
    | nil => simp
    | cons c later => simp [stops c rfl]
  rw [extractUintField, found]
  simp only [number, nonempty, if_false, stoull, foldl_denotes, Nat.zero_mul, Nat.zero_add]

end Value

section Schema

variable (s t : Spacing)

def commaGap : Text := s.afterValue.text ++ text "," ++ t.beforeKey.text

theorem object_pair (key value key' value' : Text) :
    object [field s key value, field t key' value'] =
      text "\x7b" ++ (s.beforeKey.text ++ (quoted key ++ (colonGap s ++ (value ++ (commaGap s t ++
        (quoted key' ++ (colonGap t ++ (value' ++ (t.afterValue.text ++ text "\x7d"))))))))) := by
  simp [object, field, colonGap, commaGap, List.intercalate]

theorem object_single (key value : Text) :
    object [field s key value] =
      text "\x7b" ++ (s.beforeKey.text ++ (quoted key ++ (colonGap s ++
        (value ++ (s.afterValue.text ++ text "\x7d"))))) := by
  simp [object, field, colonGap, List.intercalate]

variable {s t : Spacing} {key : Text}

theorem quote_colonGap : quote ∉ colonGap s := by
  simp only [colonGap, List.mem_append, not_or]
  exact ⟨⟨quote_blanks _, by decide⟩, quote_blanks _⟩

theorem quote_commaGap : quote ∉ commaGap s t := by
  simp only [commaGap, List.mem_append, not_or]
  exact ⟨⟨quote_blanks _, by decide⟩, quote_blanks _⟩

theorem colon_colonGap : ':'.toUInt8 ∈ colonGap s := by
  simp [colonGap, text]

theorem comma_commaGap : ','.toUInt8 ∈ commaGap s t := by
  simp [commaGap, text]

theorem gap_apart {gap : Text} {c : UInt8} (inside : c ∈ gap) (outside : c ∉ key) : gap ≠ key :=
  fun same => outside (same ▸ inside)

end Schema

theorem digit_solid {c : UInt8} (digit : isDigit c = true) :
    c ≠ quote ∧ c ≠ ' '.toUInt8 ∧ c ≠ '\t'.toUInt8 := by
  refine ⟨?_, ?_, ?_⟩ <;>
  · rintro rfl
    revert digit
    decide

theorem quote_digits {digits : Text} (numeric : ∀ c ∈ digits, isDigit c = true) : quote ∉ digits :=
  fun inside => (digit_solid (numeric quote inside)).1 rfl

theorem after_number (b : Blanks) {c : UInt8} {rest : Text} (stop : isDigit c = false) :
    ∀ d ∈ (b.text ++ c :: rest).head?, isDigit d = false := by
  intro d first
  cases split : b.text with
  | nil =>
    rw [split] at first
    cases first
    exact stop
  | cons e later =>
    rw [split] at first
    cases first
    rcases b.blank d (by simp [split]) with rfl | rfl <;> decide

theorem after_gap (s t : Spacing) (rest : Text) : ∀ d ∈ (commaGap s t ++ rest).head?, isDigit d = false := by
  rw [commaGap, List.append_assoc, List.append_assoc]
  exact after_number s.afterValue (by decide)

section Fields

variable {s t : Spacing} {cmd digits key line : Text}

theorem string_at (plain : quote ∉ cmd)
    (found : ∃ rest, afterFirst (quoted key) line = some (colonGap s ++ (quoted cmd ++ rest))) :
    extractStringField line key = some cmd := by
  obtain ⟨rest, here⟩ := found
  exact extractString_value plain (afterKey_field s (by decide) here)

theorem uint_at (nonempty : digits ≠ []) (numeric : ∀ c ∈ digits, isDigit c = true)
    (found : ∃ rest, afterFirst (quoted key) line = some (colonGap t ++ (digits ++ rest)) ∧
      ∀ c ∈ rest.head?, isDigit c = false) :
    extractUintField line key =
      if denotes digits < 2 ^ 64 then some (UInt64.ofNat (denotes digits)) else none := by
  obtain ⟨rest, here, stops⟩ := found
  obtain ⟨c, later, rfl⟩ := List.exists_cons_of_ne_nil nonempty
  have solid := (digit_solid (numeric c (by simp))).2
  exact extractUint_value numeric nonempty (afterKey_field t solid here) stops

theorem afterFirst_object {rest : Text} :
    afterFirst (quoted key) (text "\x7b" ++ (s.beforeKey.text ++ rest)) = afterFirst (quoted key) rest := by
  rw [afterFirst_skip (by decide), afterFirst_skip (quote_blanks _)]

theorem first_at (key value key' value' : Text) :
    ∃ rest, afterFirst (quoted key) (object [field s key value, field t key' value']) =
      some (colonGap s ++ (value ++ rest)) ∧ ∀ c ∈ rest.head?, isDigit c = false := by
  rw [object_pair, afterFirst_object, afterFirst_here]
  exact ⟨_, rfl, after_gap s t _⟩

theorem cmd_first_locate (plain : quote ∉ cmd) (other : cmd ≠ text "locate") :
    ∃ rest, afterFirst (quoted (text "locate"))
        (object [field s (text "cmd") (quoted cmd), field t (text "locate") digits]) =
      some (colonGap t ++ (digits ++ rest)) ∧ ∀ c ∈ rest.head?, isDigit c = false := by
  rw [object_pair, afterFirst_object,
    afterFirst_token (by decide) (by decide) (by decide) quote_colonGap
      (gap_apart colon_colonGap (by decide)),
    afterFirst_token plain (by decide) other quote_commaGap
      (gap_apart comma_commaGap (by decide)), afterFirst_here]
  exact ⟨_, rfl, after_number t.afterValue (by decide)⟩

theorem locate_first_cmd (numeric : ∀ c ∈ digits, isDigit c = true) :
    ∃ rest, afterFirst (quoted (text "cmd"))
        (object [field t (text "locate") digits, field s (text "cmd") (quoted cmd)]) =
      some (colonGap s ++ (quoted cmd ++ rest)) := by
  have bare : quote ∉ colonGap t ++ (digits ++ commaGap t s) := by
    simp only [List.mem_append, not_or]
    exact ⟨quote_colonGap, quote_digits numeric, quote_commaGap⟩
  have gap (rest : Text) : colonGap t ++ (digits ++ (commaGap t s ++ rest)) =
      (colonGap t ++ (digits ++ commaGap t s)) ++ rest := by simp
  rw [object_pair, afterFirst_object, gap,
    afterFirst_token (by decide) (by decide) (by decide) bare
      (gap_apart (List.mem_append_left _ colon_colonGap) (by decide)), afterFirst_here]
  exact ⟨_, rfl⟩

theorem cmd_alone_cmd :
    ∃ rest, afterFirst (quoted (text "cmd")) (object [field s (text "cmd") (quoted cmd)]) =
      some (colonGap s ++ (quoted cmd ++ rest)) := by
  rw [object_single, afterFirst_object, afterFirst_here]
  exact ⟨_, rfl⟩

theorem cmd_alone_locate (plain : quote ∉ cmd) (other : cmd ≠ text "locate") :
    afterFirst (quoted (text "locate")) (object [field s (text "cmd") (quoted cmd)]) = none := by
  have bare : quote ∉ s.afterValue.text ++ text "\x7d" := by
    simp only [List.mem_append, not_or]
    exact ⟨quote_blanks _, by decide⟩
  have value (rest : Text) : quoted cmd ++ rest = quote :: (cmd ++ quote :: rest) := by simp [quoted]
  rw [object_single, afterFirst_object,
    afterFirst_token (by decide) (by decide) (by decide) quote_colonGap
      (gap_apart colon_colonGap (by decide)),
    value, afterFirst_other _ plain (by decide) other, afterFirst_last bare]

end Fields

end QueryWire

open QueryWire

/-- The scanner reads the documented schema: whatever text the cmd is (without a
quote in it, and not the text locate itself), in either order of the keys and with
any blanks around keys, colons, values and the comma, both fields come out exactly;
and without the locate pair there is no locate. -/
theorem scanner_reads_schema (s t : Spacing) (cmd digits : Text) (plain : '"'.toUInt8 ∉ cmd)
    (other : cmd ≠ text "locate") (nonempty : digits ≠ []) (numeric : ∀ c ∈ digits, isDigit c = true) :
    (∀ line ∈ [object [field s (text "cmd") (quoted cmd), field t (text "locate") digits],
        object [field t (text "locate") digits, field s (text "cmd") (quoted cmd)]],
      extractStringField line (text "cmd") = some cmd ∧
      extractUintField line (text "locate") =
        if denotes digits < 2 ^ 64 then some (UInt64.ofNat (denotes digits)) else none) ∧
    extractStringField (object [field s (text "cmd") (quoted cmd)]) (text "cmd") = some cmd ∧
    extractUintField (object [field s (text "cmd") (quoted cmd)]) (text "locate") = none := by
  refine ⟨fun line order => ?_, string_at (s := s) plain cmd_alone_cmd, ?_⟩
  · rcases List.mem_pair.mp order with rfl | rfl
    · have first := first_at (s := s) (t := t) (text "cmd") (quoted cmd) (text "locate") digits
      exact ⟨string_at (s := s) plain (first.imp fun _ found => found.1),
        uint_at (t := t) nonempty numeric (cmd_first_locate plain other)⟩
    · exact ⟨string_at (s := s) plain (locate_first_cmd numeric),
        uint_at (t := t) nonempty numeric (first_at ..)⟩
  · have absent : afterFirst (['"'.toUInt8] ++ text "locate" ++ ['"'.toUInt8])
        (object [field s (text "cmd") (quoted cmd)]) = none := cmd_alone_locate plain other
    rw [extractUintField, afterKey, absent]

theorem scanner_reads_schema_quote :
    let gap : Blanks := ⟨text " ", by decide +kernel⟩
    let bare : Blanks := ⟨[], by simp⟩
    let wide : Spacing := ⟨gap, gap, gap, gap⟩
    let tight : Spacing := ⟨bare, bare, bare, bare⟩
    extractUintField
      (object [field tight (text "locate") (text "42"), field wide (text "cmd") (quoted (text "quote"))])
      (text "locate") = some 42 := by
  intro gap bare wide tight
  have both := (scanner_reads_schema wide tight (text "quote") (text "42") (by decide +kernel) (by decide +kernel)
    (by decide +kernel) (by decide +kernel)).1 _ (List.mem_cons_of_mem _ (List.mem_singleton.mpr rfl))
  rw [both.2]
  decide +kernel

end ItchLob.Net
