import CrashCourse.KeyValue.State

/-!
The RESP2 framing of `cc-resp`, on the bytes that are left where the source has an offset.
-/

namespace CrashCourse.Resp
open CrashCourse.KeyValue

def maxFrame : Nat := 4 * 1024 * 1024
def maxArrayItems : Nat := 1024

inductive RespValue where
  | simple (text : String)
  | error (text : String)
  | integer (value : Int)
  | bulk (bytes : Option Bytes)
  | array (values : List RespValue)

inductive RespError where
  | incomplete | frameTooLarge | invalidUtf8 | invalidInteger | invalidLength
  | invalidType (tag : UInt8)
  | inlineUnsupported | tooManyItems
  | protocol (reason : String)
  deriving DecidableEq

abbrev Parse := StateT Bytes (Except RespError)

def utf8 (bytes : Bytes) : Option String := String.fromUTF8? ⟨bytes.toArray⟩

/-- The bytes before the first CR LF and those behind it. -/
def line : Bytes → Option (Bytes × Bytes)
  | [] => none
  | byte :: rest =>
    if byte = 13 ∧ rest.head? = some 10 then some ([], rest.tail)
    else (line rest).map fun found => (byte :: found.1, found.2)

def readTag : Parse UInt8
  | [] => .error .incomplete
  | tag :: rest => .ok (tag, rest)

def readLine : Parse (Bytes × String) := fun input =>
  match line input with
  | none => .error .incomplete
  | some (text, rest) =>
    match utf8 text with
    | none => .error .invalidUtf8
    | some string => .ok ((text, string), rest)

def readBody (length : Nat) : Parse Bytes := fun rest =>
  if rest.length < length + 2 then .error .incomplete
  else if (rest.drop length).take 2 ≠ [13, 10] then .error (.protocol "bulk string missing CRLF")
  else .ok (rest.take length, rest.drop (length + 2))

def parseBulk (length : Int) : Parse RespValue :=
  if length = -1 then return .bulk none
  else if length < -1 then throw .invalidLength
  else if length.toNat > maxFrame then throw .frameTooLarge
  else do
    let bytes ← readBody length.toNat
    return .bulk (some bytes)

def items (item : Parse RespValue) : Nat → Parse (List RespValue)
  | 0 => return []
  | count + 1 => do
    let value ← item
    let values ← items item count
    return value :: values

def parseArray (item : Parse RespValue) (count : Int) : Parse RespValue :=
  if count < 0 then return .array []
  else if count.toNat > maxArrayItems then throw .tooManyItems
  else do
    let values ← items item count.toNat
    return .array values

def parseRest (item : Parse RespValue) (tag : UInt8) (text : Bytes × String) : Parse RespValue :=
  if tag = 43 then return .simple text.2
  else if tag = 45 then return .error text.2
  else match parseI64 text.1 with
    | none => throw (if tag = 58 then .invalidInteger else .invalidLength)
    | some number =>
      if tag = 58 then return .integer number
      else if tag = 36 then parseBulk number
      else parseArray item number

/-- `parse_at`, with `65 - depth` levels left. -/
def parseAt : Nat → Parse RespValue
  | 0 => throw .incomplete
  | levels + 1 => do
    let tag ← readTag
    if tag = 13 ∨ tag = 10 then throw .inlineUnsupported
    else if tag ∉ [43, 45, 58, 36, 42] then throw (.invalidType tag)
    else do
      let text ← readLine
      parseRest (parseAt levels) tag text

def parse (input : Bytes) : Except RespError (RespValue × Nat) :=
  match parseAt 65 input with
  | .error error => .error error
  | .ok (value, rest) =>
    if input.length - rest.length > maxFrame then .error .frameTooLarge
    else .ok (value, input.length - rest.length)

section Extensions
variable {α β : Type} {input rest text more : Bytes}

theorem line_append (found : line input = some (text, rest)) : line (input ++ more) = some (text, rest ++ more) := by
  induction input generalizing text with
  | nil => cases found
  | cons byte input ih =>
    rw [line] at found
    rw [List.cons_append, line]
    split at found
    next ends =>
      cases input with
      | nil => simp at ends
      | cons next input =>
        rw [if_pos (by simpa using ends)]
        simpa using found
    next goes =>
      obtain ⟨⟨text', rest'⟩, later, same⟩ := Option.map_eq_some_iff.mp found
      obtain ⟨rfl, rfl⟩ := Prod.mk.inj same
      rw [if_neg, ih later]
      · rfl
      cases input with
      | nil => cases later
      | cons next input => simpa using goes

/-- A line that has no end yet goes on to the next one. -/
theorem line_end {ending : Bytes} (open_ : line input = none) (ends : line ending = some (text, rest))
    (first : ending.head? ≠ some 10) : line (input ++ ending) = some (input ++ text, rest) := by
  induction input with
  | nil => exact ends
  | cons byte input ih =>
    rw [line] at open_
    split at open_
    · cases open_
    next goes =>
      rw [List.cons_append, line, if_neg, ih (Option.map_eq_none_iff.mp open_)]
      · rfl
      cases input with
      | nil => exact fun h => first h.2
      | cons next input => simpa using goes

theorem utf8_255 : utf8 (input ++ [255]) = none := by
  rw [utf8, String.fromUTF8?, dif_neg]
  rintro ⟨chars, same⟩
  have member : 255 ∈ chars.flatMap String.utf8EncodeChar := by
    have data := congrArg (·.data.toList) same
    simp only [List.utf8Encode, List.data_toByteArray] at data
    rw [← data]
    simp
  obtain ⟨char, -, member⟩ := List.mem_flatMap.mp member
  have bounded : ∀ byte ∈ String.utf8EncodeChar char, byte.toNat < 255 := by
    unfold String.utf8EncodeChar
    dsimp only
    split_ifs <;> simp only [List.forall_mem_cons, List.not_mem_nil, UInt8.toNat_ofNat', false_implies,
      implies_true, and_true] <;> omega
  exact absurd (bounded 255 member) (by decide)

/-- How a parser answers an input with more bytes behind it; the input is `deep` if an
item has begun below all levels. -/
inductive Answers (parse : Parse α) (deep : Prop) (input : Bytes) : Prop
  | value (value : α) (rest : Bytes) (shallow : ¬ deep) (done : ∀ more, parse (input ++ more) = .ok (value, rest ++ more))
  | refuses (error : RespError) (shallow : ¬ deep) (proper : error ≠ .incomplete)
      (failed : ∀ more, parse (input ++ more) = .error error)
  | waits (shallow : ¬ deep) (now : parse input = .error .incomplete) (more : Bytes) (error : RespError)
      (proper : error ≠ .incomplete) (later : parse (input ++ more) = .error error)
  | deep (deep : deep) (waits : ∀ more, parse (input ++ more) = .error .incomplete)

theorem bind_ok {first : Parse α} {next : α → Parse β} {value : α} (done : first input = .ok (value, rest)) :
    (first >>= next) input = next value rest := by
  change (first input >>= _) = _
  rw [done]
  rfl

theorem bind_error {first : Parse α} {next : α → Parse β} {error : RespError} (failed : first input = .error error) :
    (first >>= next) input = .error error := by
  change (first input >>= _) = _
  rw [failed]
  rfl

theorem readLine_ok {string : String} (found : line input = some (text, rest)) (read : utf8 text = some string) :
    readLine input = .ok ((text, string), rest) := by simp only [readLine, found, read]

theorem known_tag {tag : UInt8} {parse : Parse RespValue} (known : tag ∈ [43, 45, 58, 36, 42]) :
    (if tag = 13 ∨ tag = 10 then throw .inlineUnsupported
      else if tag ∉ [43, 45, 58, 36, 42] then throw (.invalidType tag) else parse) = parse := by
  rw [if_neg, if_neg (not_not.mpr known)]
  rintro (rfl | rfl) <;> exact absurd known (by decide)

section
variable {first : Parse α} {next : α → Parse β} {deep : Prop} {later : α → Bytes → Prop}

theorem Answers.congr {deep' : Prop} (answers : Answers first deep input) (same : deep ↔ deep') :
    Answers first deep' input := propext same ▸ answers

theorem Answers.after {value : α} (done : ∀ more, first (input ++ more) = .ok (value, rest ++ more))
    (two : Answers (next value) deep rest) : Answers (first >>= next) deep input := by
  have now : first input = .ok (value, rest) := by simpa using done []
  cases two with
  | value value' rest' shallow done' =>
    exact .value value' rest' shallow fun more => (bind_ok (done more)).trans (done' more)
  | refuses error shallow proper failed =>
    exact .refuses error shallow proper fun more => (bind_ok (done more)).trans (failed more)
  | waits shallow waits more error proper failed =>
    exact .waits shallow ((bind_ok now).trans waits) more error proper ((bind_ok (done more)).trans failed)
  | deep below waits => exact .deep below fun more => (bind_ok (done more)).trans (waits more)

theorem Answers.bind (one : Answers first deep input) (two : ∀ value rest, Answers (next value) (later value rest) rest) :
    Answers (first >>= next) (deep ∨ ∃ value rest, first input = .ok (value, rest) ∧ later value rest) input := by
  have fails {error : RespError} (now : first input = .error error) (shallow : ¬ deep) :
      ¬ (deep ∨ ∃ value rest, first input = .ok (value, rest) ∧ later value rest) := by simp [now, shallow]
  cases one with
  | refuses error shallow proper failed =>
    exact .refuses error (fails (by simpa using failed []) shallow) proper fun more => bind_error (failed more)
  | waits shallow now more error proper failed =>
    exact .waits (fails now shallow) (bind_error now) more error proper (bind_error failed)
  | deep below waits => exact .deep (.inl below) fun more => bind_error (waits more)
  | value value rest shallow done =>
    have now : first input = .ok (value, rest) := by simpa using done []
    exact ((two value rest).after done).congr (by simp [now, shallow])

theorem Answers.map {change : α → β} (one : Answers first deep input) :
    Answers (first >>= fun value => pure (change value)) deep input :=
  (one.bind fun _ rest => .value _ rest not_false fun _ => rfl).congr (by simp)

end

theorem Answers.pure (value : α) : Answers (pure value) False input := .value value input not_false fun _ => rfl

theorem Answers.throw {error : RespError} (proper : error ≠ .incomplete) : Answers (throw error : Parse α) False input :=
  .refuses error not_false proper fun _ => rfl

theorem readLine_answers : Answers readLine False input := by
  cases found : line input with
  | none =>
    have now : readLine input = .error .incomplete := by rw [readLine, found]
    have later : readLine (input ++ [255, 13, 10]) = .error .invalidUtf8 := by
      simp only [readLine, line_end found (rfl : line [255, 13, 10] = some ([255], [])) (by decide), utf8_255]
    exact .waits not_false now _ _ (by decide) later
  | some split =>
    cases read : utf8 split.1 with
    | none =>
      refine .refuses .invalidUtf8 not_false (by decide) fun more => ?_
      simp only [readLine, line_append found, read]
    | some string => exact .value (split.1, string) split.2 not_false fun more => readLine_ok (line_append found) read

theorem readBody_answers {length : Nat} : Answers (readBody length) False input := by
  by_cases short : input.length < length + 2
  · have now : readBody length input = .error .incomplete := if_pos short
    refine .waits not_false now (List.replicate (length + 2 - input.length) 255)
      (.protocol "bulk string missing CRLF") (by decide) ?_
    rw [readBody, if_neg (by simp; omega), if_pos]
    intro ends
    have last := congrArg (·[1]?) ends
    simp only [List.getElem?_take, List.getElem?_drop] at last
    rw [if_pos (by decide), List.getElem?_append_right (by omega), List.getElem?_replicate_of_lt (by omega)] at last
    cases last
  have long (more : Bytes) : ¬ (input ++ more).length < length + 2 := by simp; omega
  have body (more : Bytes) : ((input ++ more).drop length).take 2 = (input.drop length).take 2 := by
    rw [List.drop_append_of_le_length (by omega), List.take_append_of_le_length (by simp; omega)]
  by_cases ends : (input.drop length).take 2 = [13, 10]
  · refine .value (input.take length) (input.drop (length + 2)) not_false fun more => ?_
    rw [readBody, if_neg (long more), body, if_neg (not_not.mpr ends), List.take_append_of_le_length (by omega),
      List.drop_append_of_le_length (by omega)]
  · refine .refuses (.protocol "bulk string missing CRLF") not_false (by decide) fun more => ?_
    rw [readBody, if_neg (long more), body, if_pos ends]

theorem parseBulk_answers {length : Int} : Answers (parseBulk length) False input := by
  unfold parseBulk
  split_ifs
  · exact .pure _
  · exact .throw (by decide)
  · exact .throw (by decide)
  · exact readBody_answers.map

/-- Fewer items are complete than announced, and the rest is deep. -/
def Among (item : Parse RespValue) (deep : Bytes → Prop) (count : Nat) (input : Bytes) : Prop :=
  ∃ done < count, ∃ values rest, items item done input = .ok (values, rest) ∧ deep rest

variable {item : Parse RespValue} {deep : Bytes → Prop}

theorem among_succ {count : Nat} : Among item deep (count + 1) input ↔
    deep input ∨ ∃ value rest, item input = .ok (value, rest) ∧ Among item deep count rest := by
  constructor
  · rintro ⟨done, fewer, values, rest, read, below⟩
    cases done with
    | zero =>
      obtain ⟨-, rfl⟩ := Prod.mk.inj (Except.ok.inj read)
      exact .inl below
    | succ done =>
      cases first : item input with
      | error error => cases (bind_error first).symm.trans read
      | ok found =>
        have read := (bind_ok first).symm.trans read
        cases others : items item done found.2 with
        | error error => cases (bind_error others).symm.trans read
        | ok later =>
          obtain ⟨-, rfl⟩ := Prod.mk.inj (Except.ok.inj ((bind_ok others).symm.trans read))
          exact .inr ⟨found.1, found.2, rfl, done, by omega, later.1, later.2, others, below⟩
  · rintro (below | ⟨value, rest, first, done, fewer, values, last, others, below⟩)
    · exact ⟨0, by omega, [], input, rfl, below⟩
    · exact ⟨done + 1, by omega, value :: values, last, (bind_ok first).trans (bind_ok others), below⟩

variable (all : ∀ input, Answers item (deep input) input)
include all

theorem items_answers (count : Nat) : Answers (items item count) (Among item deep count input) input := by
  induction count generalizing input with
  | zero => exact (Answers.pure _).congr (by simp [Among])
  | succ count ih => exact ((all input).bind fun _ _ => ih.map).congr among_succ.symm

theorem parseArray_answers {count : Int} : Answers (parseArray item count)
    (∃ many : Nat, count = many ∧ many ≤ maxArrayItems ∧ Among item deep many input) input := by
  unfold parseArray
  split_ifs with negative many
  · exact (Answers.pure _).congr (by simp; omega)
  · refine (Answers.throw (by decide)).congr (iff_of_false not_false ?_)
    rintro ⟨count, rfl, few, -⟩
    exact absurd few (by simpa using many)
  · obtain ⟨count, rfl⟩ := Int.eq_ofNat_of_zero_le (not_lt.mp negative)
    refine (items_answers all _).map.congr ?_
    simp only [Int.toNat_natCast, not_lt] at many ⊢
    constructor
    · exact fun among => ⟨count, rfl, many, among⟩
    · rintro ⟨_, same, -, among⟩
      exact Int.ofNat_inj.mp same ▸ among

theorem parseRest_answers {tag : UInt8} {text : Bytes × String} (known : tag ∈ [43, 45, 58, 36, 42]) :
    Answers (parseRest item tag text) (tag = 42 ∧ ∃ many : Nat, parseI64 text.1 = some (many : Int) ∧
      many ≤ maxArrayItems ∧ Among item deep many input) input := by
  simp only [List.mem_cons, List.not_mem_nil, or_false] at known
  unfold parseRest
  rcases known with rfl | rfl | rfl | rfl | rfl
  · exact (Answers.pure _).congr (by simp)
  · exact (Answers.pure _).congr (by simp)
  all_goals cases parseI64 text.1 with
    | none => exact (Answers.throw (by decide)).congr (by simp)
    | some number => ?_
  · exact (Answers.pure _).congr (by simp)
  · exact parseBulk_answers.congr (by simp)
  · exact (parseArray_answers all).congr (by simp)

omit all

/-- So many array headers are open at the end, each with fewer complete items behind it
than it announces. -/
inductive Opens : Nat → Bytes → Prop
  | all (input : Bytes) : Opens 0 input
  | header {levels count done : Nat} {input text behind rest : Bytes} {string : String} {values : List RespValue}
      (head : readLine input = .ok ((text, string), behind)) (announces : parseI64 text = some (count : Int))
      (few : count ≤ maxArrayItems) (complete : items (parseAt levels) done behind = .ok (values, rest))
      (fewer : done < count) (inside : Opens levels rest) : Opens (levels + 1) (42 :: input)

theorem parseAt_answers (levels : Nat) : Answers (parseAt levels) (Opens levels input) input := by
  induction levels generalizing input with
  | zero => exact .deep (.all input) fun _ => rfl
  | succ levels ih =>
    cases input with
    | nil => exact .waits (fun opens => nomatch opens) rfl [13] .inlineUnsupported (by decide) rfl
    | cons tag input =>
      by_cases known : tag ∈ [43, 45, 58, 36, 42]
      · have inner : Answers (readLine >>= parseRest (parseAt levels) tag) _ input :=
          readLine_answers.bind fun _ _ => parseRest_answers (fun _ => ih) known
        rw [← @known_tag tag (readLine >>= parseRest (parseAt levels) tag) known] at inner
        have tagged (more : Bytes) : readTag (tag :: input ++ more) = .ok (tag, input ++ more) := rfl
        refine (Answers.after tagged inner).congr ⟨?_, ?_⟩
        · intro opened
          obtain ⟨text, behind, head, rfl, many, announces, few, done, fewer, values, rest, complete, inside⟩ :=
            opened.resolve_left id
          exact .header head announces few complete fewer inside
        · intro opens
          cases opens with
          | header head announces few complete fewer inside =>
          exact .inr ⟨_, _, head, rfl, _, announces, few, _, fewer, _, _, complete, inside⟩
      · have other : ¬ Opens (levels + 1) (tag :: input) := by
          rintro ⟨⟩
          exact known (by decide)
        by_cases line : tag = 13 ∨ tag = 10
        · refine .refuses .inlineUnsupported other (by decide) fun more => ?_
          exact congrFun (if_pos line) (input ++ more)
        · refine .refuses (.invalidType tag) other (by simp) fun more => ?_
          exact (congrFun (if_neg line) (input ++ more)).trans (congrFun (if_pos known) (input ++ more))

end Extensions

/-- A wait ends with some continuation unless an item has begun below all levels. -/
theorem incomplete_resolves_iff (input : Bytes) (waits : parse input = .error .incomplete) :
    (∃ more, parse (input ++ more) ≠ .error .incomplete) ↔ ¬ Opens 65 input := by
  have outcome {input : Bytes} {error : RespError} (failed : parseAt 65 input = .error error) :
      parse input = .error error := by rw [parse, failed]
  cases (parseAt_answers 65 : Answers _ _ input) with
  | value value rest shallow done =>
    have now := done []
    rw [List.append_nil, List.append_nil] at now
    rw [parse, now] at waits
    dsimp only at waits
    split_ifs at waits
    cases waits
  | refuses error shallow proper failed =>
    have now := failed []
    rw [List.append_nil] at now
    exact absurd (Except.error.inj ((outcome now).symm.trans waits)) proper
  | waits shallow now more error proper later =>
    refine iff_of_true ⟨more, ?_⟩ shallow
    rw [outcome later]
    exact fun h => proper (Except.error.inj h)
  | deep below waits => simp [below, fun more => outcome (waits more)]

def nestedHeaders : Nat → Bytes
  | 0 => []
  | levels + 1 => [42, 49, 13, 10] ++ nestedHeaders levels

theorem nestedHeaders_waits (more : Bytes) (levels : Nat) :
    parseAt levels (nestedHeaders levels ++ more) = .error .incomplete := by
  induction levels with
  | zero => rfl
  | succ levels ih =>
    have header (rest : Bytes) : readLine ([49, 13, 10] ++ rest) = .ok (([49], "1"), rest) :=
      readLine_ok rfl (by decide +kernel)
    have counted : parseI64 [49] = some 1 := by decide +kernel
    have inner : parseRest (parseAt levels) 42 ([49], "1") (nestedHeaders levels ++ more) = .error .incomplete := by
      simp only [parseRest, counted]
      exact bind_error (bind_error ih)
    exact (congrFun (@known_tag 42 _ (by decide)) _).trans ((bind_ok (header _)).trans inner)

theorem nested_headers_wait : parse (nestedHeaders 65) = .error .incomplete ∧
    ∀ more, parse (nestedHeaders 65 ++ more) = .error .incomplete := by
  have waits (more : Bytes) : parse (nestedHeaders 65 ++ more) = .error .incomplete := by
    rw [parse, nestedHeaders_waits]
  exact ⟨by simpa using waits [], waits⟩

mutual
def encode : RespValue → Bytes
  | .simple text => 43 :: (text.toUTF8.data.toList ++ [13, 10])
  | .error text => 45 :: (text.toUTF8.data.toList ++ [13, 10])
  | .integer value => 58 :: (decimal value ++ [13, 10])
  | .bulk none => [36, 45, 49, 13, 10]
  | .bulk (some bytes) => 36 :: (decimal bytes.length ++ [13, 10]) ++ (bytes ++ [13, 10])
  | .array values => 42 :: (decimal values.length ++ [13, 10]) ++ encodeAll values

def encodeAll : List RespValue → Bytes
  | [] => []
  | value :: values => encode value ++ encodeAll values
end

/-- No CR LF in the texts, integers of 64 bits, and the levels and items of a frame. -/
inductive Framed : Nat → RespValue → Prop
  | simple {levels : Nat} {text : String} (plain : ¬ [13, 10] <:+: text.toUTF8.data.toList) :
      Framed (levels + 1) (.simple text)
  | error {levels : Nat} {text : String} (plain : ¬ [13, 10] <:+: text.toUTF8.data.toList) :
      Framed (levels + 1) (.error text)
  | integer {levels : Nat} {value : Int} (low : -(2 ^ 63) ≤ value) (high : value < 2 ^ 63) :
      Framed (levels + 1) (.integer value)
  | null {levels : Nat} : Framed (levels + 1) (.bulk none)
  | bulk {levels : Nat} {bytes : Bytes} (small : bytes.length ≤ maxFrame) : Framed (levels + 1) (.bulk (some bytes))
  | array {levels : Nat} {values : List RespValue} (few : values.length ≤ maxArrayItems)
      (each : ∀ value ∈ values, Framed levels value) : Framed (levels + 1) (.array values)

/-- The parser reads the value off its frame and waits on every part of it. -/
structure Frames {α : Type} (parse : Parse α) (frame : Bytes) (value : α) : Prop where
  whole : ∀ more, parse (frame ++ more) = .ok (value, more)
  cut : ∀ size < frame.length, parse (frame.take size) = .error .incomplete

section Frames
variable {α β : Type} {frame behind text : Bytes} {value : α}

theorem Frames.pure : Frames (pure value) [] value := ⟨fun _ => rfl, fun _ short => absurd short (Nat.not_lt_zero _)⟩

theorem Frames.bind {first : Parse α} {next : α → Parse β} {result : β} (one : Frames first frame value)
    (two : Frames (next value) behind result) : Frames (first >>= next) (frame ++ behind) result where
  whole more := by
    rw [List.append_assoc, bind_ok (one.whole _)]
    exact two.whole more
  cut size short := by
    rw [List.length_append] at short
    rcases Nat.lt_or_ge size frame.length with within | beyond
    · rw [List.take_append_of_le_length within.le]
      exact bind_error (one.cut size within)
    · rw [List.take_append, List.take_of_length_le beyond, bind_ok (one.whole _)]
      exact two.cut _ (by omega)

theorem line_split {rest : Bytes} (found : line frame = some (text, rest)) : frame = text ++ 13 :: 10 :: rest := by
  induction frame generalizing text with
  | nil => cases found
  | cons byte frame ih =>
    rw [line] at found
    split at found
    next ends =>
      cases frame with
      | nil => simp at ends
      | cons next frame => simp_all
    next =>
      obtain ⟨⟨text', rest'⟩, later, same⟩ := Option.map_eq_some_iff.mp found
      obtain ⟨rfl, rfl⟩ := Prod.mk.inj same
      rw [ih later, List.cons_append]

theorem readLine_frames {string : String} (plain : ¬ [13, 10] <:+: text) (read : utf8 text = some string) :
    Frames readLine (text ++ [13, 10]) (text, string) := by
  have none_ : line text = none := by
    cases found : line text with
    | none => rfl
    | some split => exact absurd ⟨split.1, split.2, by rw [line_split found]; simp⟩ plain
  have ends : line (text ++ [13, 10]) = some (text, []) := by
    simpa using line_end none_ (rfl : line [13, 10] = some ([], [])) (by decide)
  refine ⟨fun more => readLine_ok (line_append ends) read, fun size short => ?_⟩
  cases found : line ((text ++ [13, 10]).take size) with
  | none => rw [readLine, found]
  | some split =>
    -- A line that ends in a part of the frame ends before the rest of it.
    have whole := @line_append _ _ _ ((text ++ [13, 10]).drop size) found
    rw [List.take_append_drop, ends, Option.some.injEq, Prod.mk.injEq] at whole
    have none_left := congrArg List.length whole.2
    simp only [List.length_nil, List.length_append, List.length_drop] at none_left
    simp only [List.length_append] at short
    omega

theorem readBody_frames : Frames (readBody text.length) (text ++ [13, 10]) text where
  whole more := by simp [readBody]
  cut size short := if_pos (by simp at short ⊢; omega)

theorem utf8_text (text : String) : utf8 text.toUTF8.data.toList = some text := dif_pos text.isValidUTF8

theorem utf8EncodeChar_ascii {byte : UInt8} (ascii : byte < 128) :
    String.utf8EncodeChar (Char.ofNat byte.toNat) = [byte] := by
  have small : byte.toNat < 128 := by simpa using UInt8.lt_iff_toNat_lt.mp ascii
  have value : (Char.ofNat byte.toNat).val.toNat = byte.toNat := by
    rw [Char.ofNat, dif_pos (Or.inl (by omega))]
    rfl
  unfold String.utf8EncodeChar
  dsimp only
  rw [if_pos (by omega), value, UInt8.ofNat_toNat]

theorem isValidUTF8_ascii (ascii : ∀ byte ∈ text, byte < 128) : (⟨text.toArray⟩ : ByteArray).IsValidUTF8 := by
  refine ⟨text.map fun byte => Char.ofNat byte.toNat, ByteArray.ext ?_⟩
  have same : (text.map fun byte => Char.ofNat byte.toNat).flatMap String.utf8EncodeChar = text := by
    rw [List.flatMap_map]
    induction text with
    | nil => rfl
    | cons byte text ih =>
      rw [List.forall_mem_cons] at ascii
      rw [List.flatMap_cons, utf8EncodeChar_ascii ascii.1, ih ascii.2, List.singleton_append]
  rw [List.utf8Encode, List.data_toByteArray, same]

theorem decimalNat_ascii (value : Nat) : ∀ byte ∈ decimalNat value, byte < 128 ∧ byte ≠ 13 := by
  intro byte member
  have digit := decimalNat_isDigit _ _ member
  simp only [isDigit, Bool.and_eq_true, decide_eq_true_eq] at digit
  exact ⟨UInt8.lt_iff_toNat_lt.mpr (by simp; omega), by rintro rfl; simp at digit⟩

/-- A number has a sign and digits, so its text is ASCII and one line. -/
theorem decimal_frames (value : Int) : ∃ string, Frames readLine (decimal value ++ [13, 10]) (decimal value, string) := by
  have ascii : ∀ byte ∈ decimal value, byte < 128 ∧ byte ≠ 13 := by
    unfold decimal
    split
    · exact List.forall_mem_cons.mpr ⟨by decide, decimalNat_ascii _⟩
    · exact decimalNat_ascii _
  have valid := isValidUTF8_ascii fun byte member => (ascii byte member).1
  exact ⟨_, readLine_frames (fun inside => (ascii 13 (inside.subset (by simp))).2 rfl) (dif_pos valid)⟩

variable {item : Parse RespValue} {levels : Nat}

theorem items_frames {values : List RespValue} (each : ∀ value ∈ values, Frames item (encode value) value) :
    Frames (items item values.length) (encodeAll values) values := by
  induction values with
  | nil => exact .pure
  | cons value values ih =>
    have later := ih fun value member => each value (List.mem_cons_of_mem _ member)
    rw [encodeAll, ← List.append_nil (encodeAll values)]
    exact (each value List.mem_cons_self).bind (later.bind .pure)

theorem parseAt_frames {result : RespValue} {string : String} (tag : UInt8) (known : tag ∈ [43, 45, 58, 36, 42])
    (head : Frames readLine (text ++ [13, 10]) (text, string))
    (tail : Frames (parseRest (parseAt levels) tag (text, string)) behind result) :
    Frames (parseAt (levels + 1)) (tag :: (text ++ [13, 10]) ++ behind) result := by
  have one : Frames readTag [tag] tag := ⟨fun _ => rfl, fun size short => by simp_all [readTag]⟩
  refine one.bind ?_
  rw [known_tag known]
  exact head.bind tail

theorem line_frames {result : RespValue} {string : String} (tag : UInt8) (known : tag ∈ [43, 45, 58, 36, 42])
    (head : Frames readLine (text ++ [13, 10]) (text, string))
    (tail : parseRest (parseAt levels) tag (text, string) = pure result) :
    Frames (parseAt (levels + 1)) (tag :: (text ++ [13, 10])) result := by
  rw [← List.append_nil (tag :: _)]
  refine parseAt_frames tag known head ?_
  rw [tail]
  exact .pure

theorem encode_frames {value : RespValue} (framed : Framed levels value) :
    Frames (parseAt levels) (encode value) value := by
  induction framed with
  | @simple levels text plain => exact line_frames 43 (by decide) (readLine_frames plain (utf8_text text)) rfl
  | @error levels text plain => exact line_frames 45 (by decide) (readLine_frames plain (utf8_text text)) rfl
  | @integer levels value low high =>
    obtain ⟨string, head⟩ := decimal_frames value
    refine line_frames 58 (by decide) head ?_
    simp [parseRest, parseI64_decimal low high]
  | null =>
    obtain ⟨string, head⟩ := decimal_frames (-1)
    exact line_frames 36 (by decide) head rfl
  | @bulk levels bytes small =>
    obtain ⟨string, head⟩ := decimal_frames bytes.length
    have bounded : (bytes.length : Int) < 2 ^ 63 := by unfold maxFrame at small; omega
    refine parseAt_frames 36 (by decide) head ?_
    have rest : parseRest (parseAt levels) 36 (decimal bytes.length, string) =
        readBody bytes.length >>= fun bytes => pure (.bulk (some bytes)) := by
      simp only [parseRest, parseI64_decimal (by omega) bounded, parseBulk]
      simp [show ¬ (bytes.length : Int) < -1 by omega, not_lt.mpr small]
    rw [rest, ← List.append_nil (bytes ++ _)]
    exact readBody_frames.bind .pure
  | @array levels values few each ih =>
    obtain ⟨string, head⟩ := decimal_frames values.length
    have bounded : (values.length : Int) < 2 ^ 63 := by unfold maxArrayItems at few; omega
    refine parseAt_frames 42 (by decide) head ?_
    have rest : parseRest (parseAt levels) 42 (decimal values.length, string) =
        items (parseAt levels) values.length >>= fun values => pure (.array values) := by
      simp only [parseRest, parseI64_decimal (by omega) bounded, parseArray]
      simp [not_lt.mpr few]
    rw [rest, ← List.append_nil (encodeAll _)]
    exact (items_frames ih).bind .pure

end Frames

/-- An array of two integers that is cut behind the first of them. -/
theorem incomplete_resolves_iff_cut : parse [42, 50, 13, 10, 58, 49, 13, 10] = .error .incomplete ∧
    ∃ more, parse ([42, 50, 13, 10, 58, 49, 13, 10] ++ more) ≠ .error .incomplete := by
  have one : Framed 64 (.integer 1) := .integer (by decide) (by decide)
  have pair : Framed 65 (.array [.integer 1, .integer 1]) := .array (by decide) (by simpa using one)
  have waits : parse [42, 50, 13, 10, 58, 49, 13, 10] = .error .incomplete := by
    have cut : parseAt 65 [42, 50, 13, 10, 58, 49, 13, 10] = _ := (encode_frames pair).cut 8 (by decide)
    rw [parse, cut]
  refine ⟨waits, (incomplete_resolves_iff _ waits).mpr ?_⟩
  intro opens
  cases opens with
  | @header _ count done _ text behind rest string values head announces few complete fewer inside =>
  have header : readLine [50, 13, 10, 58, 49, 13, 10] = .ok (([50], "2"), [58, 49, 13, 10]) :=
    readLine_ok rfl (by decide +kernel)
  rw [header] at head
  obtain ⟨⟨rfl, rfl⟩, rfl⟩ : ([50] = text ∧ "2" = string) ∧ [58, 49, 13, 10] = behind := by simpa using head
  have two : parseI64 [50] = some 2 := by decide +kernel
  obtain rfl : count = 2 := by
    rw [two] at announces
    exact Int.ofNat_inj.mp (Option.some.inj announces).symm
  have first : parseAt 64 [58, 49, 13, 10] = .ok (.integer 1, []) := (encode_frames one).whole []
  -- neither the first integer nor the end of the input opens an array
  obtain rfl | rfl : done = 0 ∨ done = 1 := by omega
  · obtain ⟨-, rfl⟩ := Prod.mk.inj (Except.ok.inj complete)
    cases inside
  · have only : items (parseAt 64) 1 [58, 49, 13, 10] = .ok ([.integer 1], []) := (bind_ok first).trans rfl
    obtain ⟨-, rfl⟩ := Prod.mk.inj (Except.ok.inj (only.symm.trans complete))
    cases inside

/-- A frame is read whole, whatever stands behind it, and no part of it is. -/
theorem parse_encode (value : RespValue) (framed : Framed 65 value) (fits : (encode value).length ≤ maxFrame) :
    (∀ behind, parse (encode value ++ behind) = .ok (value, (encode value).length)) ∧
    ∀ size < (encode value).length, parse ((encode value).take size) = .error .incomplete := by
  have frames : Frames (parseAt 65) (encode value) value := encode_frames framed
  constructor
  · intro behind
    rw [parse, frames.whole]
    simp [fits]
  · intro size short
    rw [parse, frames.cut size short]

/-- An array with a null and a bulk string that looks like an array. -/
theorem parse_encode_array :
    (∀ behind, parse (encode (.array [.bulk none, .bulk (some [42, 49, 13, 10])]) ++ behind) =
      .ok (.array [.bulk none, .bulk (some [42, 49, 13, 10])], 19)) ∧
    ∀ size < 19, parse ((encode (.array [.bulk none, .bulk (some [42, 49, 13, 10])])).take size) =
      .error .incomplete :=
  parse_encode _ (.array (by decide) (by simpa using ⟨.null, .bulk (by decide)⟩)) (by decide)

end CrashCourse.Resp
