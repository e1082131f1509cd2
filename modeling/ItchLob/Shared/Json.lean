import Mathlib.Data.List.TakeWhile
import Mathlib.Data.List.Basic

set_option autoImplicit false

namespace Json

abbrev Text := List UInt8

def ascii (s : String) : Text := s.toList.map Char.toUInt8

def isDigit (c : UInt8) : Bool := '0'.toUInt8 ≤ c && c ≤ '9'.toUInt8

-- Stands between quotes as it is: a printing character, but no quote and no backslash.
def bare (c : UInt8) : Bool := 32 ≤ c && c < 127 && c ≠ '"'.toUInt8 && c ≠ '\\'.toUInt8

structure Plain where
  text : Text
  isBare : text.all bare = true
  deriving DecidableEq

def Plain.of (s : Text) : Plain := ⟨s.filter bare, by simp⟩

/-- Of the numbers only the naturals, of the strings only those without escapes. -/
inductive Value where
  | null
  | number (n : Nat)
  | string (s : Plain)
  | array (items : List Value)
  | object (fields : List (Plain × Value))

def digits (n : Nat) : Text := (Nat.toDigits 10 n).map Char.toUInt8

def quoted (s : Plain) : Text := '"'.toUInt8 :: s.text ++ ['"'.toUInt8]

def between (opening closing : UInt8) (texts : List Text) : Text :=
  opening :: List.intercalate [','.toUInt8] texts ++ [closing]

mutual

-- The compact text, without blanks.
def Value.render : Value → Text
  | .null => ascii "null"
  | .number n => digits n
  | .string s => quoted s
  | .array items => between '['.toUInt8 ']'.toUInt8 (itemTexts items)
  | .object fields => between '\x7b'.toUInt8 '\x7d'.toUInt8 (fieldTexts fields)
termination_by structural v => v

def itemTexts : List Value → List Text
  | [] => []
  | v :: rest => v.render :: itemTexts rest
termination_by structural items => items

def fieldTexts : List (Plain × Value) → List Text
  | [] => []
  | (key, v) :: rest => (quoted key ++ ':'.toUInt8 :: v.render) :: fieldTexts rest
termination_by structural fields => fields

end

abbrev Reader (α : Type) := Text → Option (α × Text)

def char (c : UInt8) : Reader Unit
  | [] => none
  | d :: rest => if d = c then some ((), rest) else none

-- A number has no leading zero.
def number : Reader Nat := fun s =>
  let found := s.takeWhile isDigit
  if found = [] ∨ (found.head? = some '0'.toUInt8 ∧ found ≠ ['0'.toUInt8]) then none
  else some (found.foldl (fun n c => 10 * n + (c.toNat - '0'.toNat)) 0, s.dropWhile isDigit)

def string : Reader Plain := fun s =>
  (char '"'.toUInt8 s).bind fun behind =>
    (char '"'.toUInt8 (behind.2.dropWhile bare)).map fun rest =>
      (⟨behind.2.takeWhile bare, List.all_takeWhile⟩, rest.2)

section Series

variable {α : Type} (closing : UInt8) (element : Reader α)

-- One element at least.
def elements : Nat → Reader (List α)
  | 0, _ => none
  | fuel + 1, s =>
    match element s with
    | none | some (_, []) => none
    | some (x, c :: rest) =>
      if c = ','.toUInt8 then (elements fuel rest).map fun more => (x :: more.1, more.2)
      else if c = closing then some ([x], rest)
      else none

-- What stands behind an opening bracket.
def series : Reader (List α) := fun s =>
  match char closing s with
  | some rest => some ([], rest.2)
  | none => elements closing element s.length s

end Series

def field (value : Reader Value) : Reader (Plain × Value) := fun s =>
  (string s).bind fun key =>
    (char ':'.toUInt8 key.2).bind fun colon => (value colon.2).map fun v => ((key.1, v.1), v.2)

def value : Nat → Reader Value
  | 0 => fun _ => none
  | fuel + 1 => fun s =>
    match s with
    | [] => none
    | c :: rest =>
      if c = '"'.toUInt8 then (string s).map fun found => (.string found.1, found.2)
      else if c = '['.toUInt8 then
        (series ']'.toUInt8 (value fuel) rest).map fun found => (.array found.1, found.2)
      else if c = '\x7b'.toUInt8 then
        (series '\x7d'.toUInt8 (field (value fuel)) rest).map fun found => (.object found.1, found.2)
      else if c = 'n'.toUInt8 then
        if (ascii "null").isPrefixOf s then some (.null, s.drop 4) else none
      else (number s).map fun found => (.number found.1, found.2)

def parse (s : Text) : Option Value :=
  match value s.length s with
  | some (v, []) => some v
  | _ => none

def Stops (rest : Text) : Prop := ∀ c ∈ rest.head?, isDigit c = false

def Reads {α : Type} (reader : Reader α) (x : α) (s : Text) : Prop :=
  ∀ rest, Stops rest → reader (s ++ rest) = some (x, rest)

theorem stops_cons {c : UInt8} (other : isDigit c = false) (rest : Text) : Stops (c :: rest) := by
  intro d first
  rw [List.head?_cons, Option.mem_some] at first
  rwa [← first]

theorem char_self (c : UInt8) (rest : Text) : char c (c :: rest) = some ((), rest) := if_pos rfl

theorem char_other {c d : UInt8} (other : d ≠ c) (rest : Text) : char c (d :: rest) = none := if_neg other

section Digits

theorem toUInt8_digit {c : Char} (digit : c.isDigit = true) : c.toUInt8.toNat = c.toNat := by
  have small : c.toNat < 256 := by
    have high : c.toNat ≤ '9'.toNat := by
      rw [Char.isDigit, Bool.and_eq_true, decide_eq_true_eq, decide_eq_true_eq] at digit
      exact digit.2
    exact high.trans_lt (by decide)
  rw [Char.toUInt8, UInt32.toNat_toUInt8]
  exact Nat.mod_eq_of_lt small

theorem isDigit_digits {n : Nat} {c : UInt8} (inside : c ∈ digits n) : isDigit c = true := by
  obtain ⟨d, member, rfl⟩ := List.mem_map.mp inside
  have digit : d.isDigit = true := Nat.isDigit_of_mem_toDigits (by decide) (by decide) member
  have value := toUInt8_digit digit
  rw [Char.isDigit, Bool.and_eq_true, decide_eq_true_eq, decide_eq_true_eq] at digit
  rw [isDigit, Bool.and_eq_true, decide_eq_true_eq, decide_eq_true_eq, UInt8.le_iff_toNat_le,
    UInt8.le_iff_toNat_le, value]
  exact digit

theorem toDigits_lead (n : Nat) (zero : (Nat.toDigits 10 n).head? = some '0') : n = 0 := by
  induction n using Nat.strong_induction_on with
  | _ n ih =>
    by_cases small : n < 10
    · rw [Nat.toDigits_of_lt_base small, List.head?_cons, Option.some.injEq] at zero
      have value := Nat.toNat_digitChar_sub_48_of_lt_ten small
      rw [zero] at value
      exact value.symm
    · rw [Nat.toDigits_of_base_le (by decide) (Nat.le_of_not_lt small),
        List.head?_append_of_ne_nil _ Nat.toDigits_ne_nil] at zero
      have none_left := ih (n / 10) (by omega) zero
      omega

theorem digits_lead {n : Nat} (zero : (digits n).head? = some '0'.toUInt8) : digits n = ['0'.toUInt8] := by
  rw [digits, List.head?_map, Option.map_eq_some_iff] at zero
  obtain ⟨c, first, same⟩ := zero
  have digit : c.isDigit = true :=
    Nat.isDigit_of_mem_toDigits (by decide) (by decide) (List.mem_of_mem_head? first)
  have value := toUInt8_digit digit
  rw [same] at value
  have here : c = '0' := Char.toNat_inj.mp value.symm
  rw [toDigits_lead n (here ▸ first)]
  decide

theorem digits_ne_nil (n : Nat) : digits n ≠ [] := by
  simp [digits, Nat.toDigits_ne_nil]

theorem foldl_digits (n : Nat) :
    (digits n).foldl (fun n c => 10 * n + (c.toNat - '0'.toNat)) 0 = n := by
  have bytes : (Nat.toDigits 10 n).foldl (fun n c => 10 * n + (c.toUInt8.toNat - '0'.toNat)) 0 =
      (Nat.toDigits 10 n).foldl (fun n c => 10 * n + (c.toNat - '0'.toNat)) 0 := by
    refine List.foldl_ext _ _ 0 fun m c member => ?_
    rw [toUInt8_digit (Nat.isDigit_of_mem_toDigits (by decide) (by decide) member)]
  rw [digits, List.foldl_map, bytes, ← Nat.ofDigitChars_eq_foldl]
  exact Nat.ofDigitChars_ten_toDigits

theorem number_reads (n : Nat) : Reads number n (digits n) := by
  intro rest stops
  have found : (digits n ++ rest).takeWhile isDigit = digits n := by
    rw [List.takeWhile_append_of_pos fun c inside => isDigit_digits inside]
    cases rest with
    | nil => simp
    | cons c later => simp [stops c rfl]
  have behind : (digits n ++ rest).dropWhile isDigit = rest := by
    rw [List.dropWhile_append_of_pos fun c inside => isDigit_digits inside]
    cases rest with
    | nil => rfl
    | cons c later => rw [List.dropWhile_cons_of_neg (by simp [stops c rfl])]
  have sound : ¬(digits n = [] ∨ ((digits n).head? = some '0'.toUInt8 ∧ digits n ≠ ['0'.toUInt8])) := by
    rintro (missing | ⟨zero, more⟩)
    · exact digits_ne_nil n missing
    · exact more (digits_lead zero)
  simp only [number, found, behind]
  rw [if_neg sound, foldl_digits]

end Digits

theorem string_reads (s : Plain) : Reads string s (quoted s) := by
  intro rest _
  obtain ⟨text, isBare⟩ := s
  have free : ∀ c ∈ text, bare c = true := List.all_eq_true.mp isBare
  have split : quoted ⟨text, isBare⟩ ++ rest = '"'.toUInt8 :: (text ++ '"'.toUInt8 :: rest) := by simp [quoted]
  have found : (text ++ '"'.toUInt8 :: rest).takeWhile bare = text := by
    rw [List.takeWhile_append_of_pos free, List.takeWhile_cons_of_neg (by decide), List.append_nil]
  have behind : (text ++ '"'.toUInt8 :: rest).dropWhile bare = '"'.toUInt8 :: rest := by
    rw [List.dropWhile_append_of_pos free, List.dropWhile_cons_of_neg (by decide)]
  rw [split, string, char_self]
  simp only [Option.bind_some, behind, char_self, Option.map_some, found]

section Series

variable {α : Type} {closing : UInt8} {element : Reader α}

theorem elements_read (close : isDigit closing = false) (apart : closing ≠ ','.toUInt8) {xs : List α}
    {texts : List Text} (reads : List.Forall₂ (Reads element) xs texts) (some_text : texts ≠ []) (fuel : Nat)
    (enough : texts.length ≤ fuel) (rest : Text) :
    elements closing element fuel (List.intercalate [','.toUInt8] texts ++ closing :: rest) = some (xs, rest) := by
  induction reads generalizing fuel with
  | nil => exact absurd rfl some_text
  | @cons x t xs texts first more ih =>
    obtain ⟨fuel, rfl⟩ : ∃ n, fuel = n + 1 := ⟨fuel - 1, by rw [List.length_cons] at enough; omega⟩
    cases more with
    | nil =>
      rw [List.intercalate_singleton, elements, first _ (stops_cons close rest)]
      simp only [if_neg apart, if_true]
    | @cons y u ys others second more =>
      have onward := ih (by simp) fuel (by simpa using enough)
      have split : List.intercalate [','.toUInt8] (t :: u :: others) ++ closing :: rest =
          t ++ ','.toUInt8 :: (List.intercalate [','.toUInt8] (u :: others) ++ closing :: rest) := by
        rw [List.intercalate_cons_cons]
        simp
      rw [split, elements, first _ (stops_cons (by decide) _)]
      simp only [if_true, onward, Option.map_some]

theorem length_le_intercalate (texts : List Text) :
    texts.length ≤ (List.intercalate [','.toUInt8] texts).length + 1 := by
  induction texts with
  | nil => simp
  | cons t texts ih =>
    cases texts with
    | nil => simp
    | cons u texts =>
      rw [List.intercalate_cons_cons, List.length_cons, List.length_append, List.length_append,
        List.length_singleton]
      omega

theorem series_reads (close : isDigit closing = false) (apart : closing ≠ ','.toUInt8) {xs : List α}
    {texts : List Text} (reads : List.Forall₂ (Reads element) xs texts)
    (opens : ∀ t ∈ texts, ∃ c more, t = c :: more ∧ c ≠ closing) :
    Reads (series closing element) xs (List.intercalate [','.toUInt8] texts ++ [closing]) := by
  intro rest _
  rw [List.append_assoc, List.singleton_append, series]
  cases reads with
  | nil => rw [List.intercalate_nil, List.nil_append, char_self]
  | @cons x t xs texts first more =>
    obtain ⟨c, later, begins, other⟩ := opens t List.mem_cons_self
    have reads : List.Forall₂ (Reads element) (x :: xs) (t :: texts) := .cons first more
    have long := length_le_intercalate (t :: texts)
    obtain ⟨tail, whole⟩ : ∃ tail, List.intercalate [','.toUInt8] (t :: texts) = c :: tail := by
      cases texts with
      | nil => exact ⟨later, by rw [List.intercalate_singleton, begins]⟩
      | cons u texts => exact ⟨_, by rw [List.intercalate_cons_cons, begins, List.append_assoc, List.cons_append]⟩
    have fuel : (t :: texts).length ≤ (List.intercalate [','.toUInt8] (t :: texts) ++ closing :: rest).length := by
      rw [List.length_append]
      exact long.trans (Nat.add_le_add_left (Nat.le_add_left 1 _) _)
    have found := elements_read close apart reads (by simp) _ fuel rest
    rw [whole, List.cons_append] at found ⊢
    rw [char_other other]
    exact found

end Series

theorem mem_intercalate {t : Text} {texts : List Text} (member : t ∈ texts) :
    t.length ≤ (List.intercalate [','.toUInt8] texts).length := by
  induction texts with
  | nil => cases member
  | cons u texts ih =>
    cases texts with
    | nil => rw [List.mem_singleton.mp member, List.intercalate_singleton]
    | cons w texts =>
      rw [List.intercalate_cons_cons, List.length_append, List.length_append]
      rcases List.mem_cons.mp member with rfl | later
      · omega
      · have := ih later
        omega

theorem between_length {opening closing : UInt8} {texts : List Text} {fuel : Nat}
    (fits : (between opening closing texts).length ≤ fuel + 1) {t : Text} (member : t ∈ texts) : t.length ≤ fuel := by
  have within := mem_intercalate member
  simp only [between, List.length_cons, List.length_append, List.length_nil] at fits
  omega

theorem digit_cases {c : UInt8} (digit : isDigit c = true) :
    c ≠ '"'.toUInt8 ∧ c ≠ '['.toUInt8 ∧ c ≠ '\x7b'.toUInt8 ∧ c ≠ 'n'.toUInt8 ∧ c ≠ ']'.toUInt8 := by
  refine ⟨?_, ?_, ?_, ?_, ?_⟩ <;>
  · rintro rfl
    revert digit
    decide

theorem render_opens (v : Value) : ∃ c more, v.render = c :: more ∧ c ≠ ']'.toUInt8 := by
  cases v with
  | null => exact ⟨_, _, rfl, by decide⟩
  | string s => exact ⟨_, _, rfl, by decide⟩
  | array items => exact ⟨_, _, rfl, by decide⟩
  | object fields => exact ⟨_, _, rfl, by decide⟩
  | number n =>
    obtain ⟨c, more, split⟩ := List.exists_cons_of_ne_nil (digits_ne_nil n)
    refine ⟨c, more, split, (digit_cases (isDigit_digits (n := n) ?_)).2.2.2.2⟩
    rw [split]
    exact List.mem_cons_self

theorem itemTexts_open (items : List Value) : ∀ t ∈ itemTexts items, ∃ c more, t = c :: more ∧ c ≠ ']'.toUInt8 := by
  induction items with
  | nil => simp [itemTexts]
  | cons v rest ih =>
    intro t member
    rcases List.mem_cons.mp member with rfl | later
    · exact render_opens v
    · exact ih t later

theorem fieldTexts_open (fields : List (Plain × Value)) :
    ∀ t ∈ fieldTexts fields, ∃ c more, t = c :: more ∧ c ≠ '\x7d'.toUInt8 := by
  induction fields with
  | nil => simp [fieldTexts]
  | cons pair rest ih =>
    intro t member
    rcases List.mem_cons.mp member with rfl | later
    · exact ⟨_, _, rfl, by decide⟩
    · exact ih t later

theorem field_reads {reader : Reader Value} {v : Value} {s : Text} (key : Plain) (reads : Reads reader v s) :
    Reads (field reader) (key, v) (quoted key ++ ':'.toUInt8 :: s) := by
  intro rest stops
  have named := string_reads key (':'.toUInt8 :: (s ++ rest)) (stops_cons (by decide) _)
  rw [List.append_assoc, List.cons_append, field, named]
  simp only [Option.bind_some, char_self, reads rest stops, Option.map_some]

mutual

theorem value_reads (v : Value) (fuel : Nat) (fits : v.render.length ≤ fuel) : Reads (value fuel) v v.render := by
  obtain ⟨c, more, split, -⟩ := render_opens v
  obtain ⟨fuel, rfl⟩ : ∃ n, fuel = n + 1 := ⟨fuel - 1, by rw [split, List.length_cons] at fits; omega⟩
  intro rest stops
  cases v with
  | null => rfl
  | number n =>
    have digit : isDigit c = true := isDigit_digits (n := n) (by
      rw [show digits n = c :: more from split]
      exact List.mem_cons_self)
    obtain ⟨unquoted, unlisted, unfielded, unnull, -⟩ := digit_cases digit
    have found := number_reads n rest stops
    rw [show digits n = c :: more from split, List.cons_append] at found
    rw [split, List.cons_append, value]
    simp only [if_neg unquoted, if_neg unlisted, if_neg unfielded, if_neg unnull, found, Option.map_some]
  | string s =>
    have found := string_reads s rest stops
    rw [Value.render, value]
    change Option.map _ (string (quoted s ++ rest)) = _
    rw [found, Option.map_some]
  | array items =>
    have reads := items_read items fuel fun t member => between_length fits member
    have found := series_reads (by decide) (by decide) reads (itemTexts_open items) rest stops
    rw [Value.render, value, between, List.cons_append, List.cons_append]
    change Option.map _ (series ']'.toUInt8 (value fuel) _) = _
    rw [found, Option.map_some]
  | object fields =>
    have reads := fields_read fields fuel fun t member => between_length fits member
    have found := series_reads (by decide) (by decide) reads (fieldTexts_open fields) rest stops
    rw [Value.render, value, between, List.cons_append, List.cons_append]
    change Option.map _ (series '\x7d'.toUInt8 (field (value fuel)) _) = _
    rw [found, Option.map_some]
termination_by structural v

theorem items_read (items : List Value) (fuel : Nat) (fits : ∀ t ∈ itemTexts items, t.length ≤ fuel) :
    List.Forall₂ (Reads (value fuel)) items (itemTexts items) := by
  cases items with
  | nil => exact .nil
  | cons v rest =>
    exact .cons (value_reads v fuel (fits _ List.mem_cons_self))
      (items_read rest fuel fun t member => fits t (List.mem_cons_of_mem _ member))
termination_by structural items

theorem fields_read (fields : List (Plain × Value)) (fuel : Nat) (fits : ∀ t ∈ fieldTexts fields, t.length ≤ fuel) :
    List.Forall₂ (Reads (field (value fuel))) fields (fieldTexts fields) := by
  cases fields with
  | nil => exact .nil
  | cons pair rest =>
    obtain ⟨key, v⟩ := pair
    have inside : v.render.length ≤ fuel := by
      have whole := fits _ List.mem_cons_self
      rw [List.length_append, List.length_cons] at whole
      omega
    exact .cons (field_reads key (value_reads v fuel inside))
      (fields_read rest fuel fun t member => fits t (List.mem_cons_of_mem _ member))
termination_by structural fields

end

theorem parse_render (v : Value) : parse v.render = some v := by
  have found := value_reads v v.render.length (Nat.le_refl _) [] (by intro c first; cases first)
  rw [List.append_nil] at found
  rw [parse, found]

def printing (c : UInt8) : Bool := 32 ≤ c && c < 127

theorem all_intercalate {texts : List Text} (each : ∀ t ∈ texts, t.all printing = true) :
    (List.intercalate [','.toUInt8] texts).all printing = true := by
  induction texts with
  | nil => rfl
  | cons t texts ih =>
    cases texts with
    | nil =>
      rw [List.intercalate_singleton]
      exact each t List.mem_cons_self
    | cons u texts =>
      have more := ih fun t member => each t (List.mem_cons_of_mem _ member)
      rw [List.intercalate_cons_cons, List.all_append, List.all_append, each t List.mem_cons_self, more]
      decide

theorem all_between {opening closing : UInt8} {texts : List Text} (brackets : [opening, closing].all printing = true)
    (each : ∀ t ∈ texts, t.all printing = true) : (between opening closing texts).all printing = true := by
  simp only [List.all_cons, List.all_nil, Bool.and_true, Bool.and_eq_true] at brackets
  simp only [between, List.cons_append, List.all_cons, List.all_append, all_intercalate each, brackets, List.all_nil,
    Bool.and_self]

theorem quoted_printing (s : Plain) : (quoted s).all printing = true := by
  have free : s.text.all printing = true := by
    refine List.all_eq_true.mpr fun c inside => ?_
    have isBare := List.all_eq_true.mp s.isBare c inside
    simp only [bare, Bool.and_eq_true] at isBare
    simp only [printing, Bool.and_eq_true]
    exact isBare.1.1
  simp only [quoted, List.cons_append, List.all_cons, List.all_append, free]
  decide

theorem digits_printing (n : Nat) : (digits n).all printing = true := by
  refine List.all_eq_true.mpr fun c inside => ?_
  have digit := isDigit_digits inside
  simp only [isDigit, Bool.and_eq_true, decide_eq_true_eq] at digit
  simp only [printing, Bool.and_eq_true, decide_eq_true_eq]
  exact ⟨UInt8.le_trans (show (32 : UInt8) ≤ '0'.toUInt8 by decide) digit.1,
    UInt8.lt_of_le_of_lt digit.2 (show '9'.toUInt8 < (127 : UInt8) by decide)⟩

mutual

theorem render_printing (v : Value) : v.render.all printing = true := by
  cases v with
  | null => decide
  | number n => exact digits_printing n
  | string s => exact quoted_printing s
  | array items => exact all_between (by decide) (items_printing items)
  | object fields => exact all_between (by decide) (fields_printing fields)
termination_by structural v

theorem items_printing (items : List Value) : ∀ t ∈ itemTexts items, t.all printing = true := by
  cases items with
  | nil => simp [itemTexts]
  | cons v rest =>
    intro t member
    rcases List.mem_cons.mp member with rfl | later
    · exact render_printing v
    · exact items_printing rest t later
termination_by structural items

theorem fields_printing (fields : List (Plain × Value)) : ∀ t ∈ fieldTexts fields, t.all printing = true := by
  cases fields with
  | nil => simp [fieldTexts]
  | cons pair rest =>
    obtain ⟨key, v⟩ := pair
    intro t member
    rcases List.mem_cons.mp member with rfl | later
    · rw [List.all_append, List.all_cons, quoted_printing, render_printing v]
      decide
    · exact fields_printing rest t later
termination_by structural fields

end

end Json
