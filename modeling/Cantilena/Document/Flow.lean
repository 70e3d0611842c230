import Cantilena.Document.Scalar
import Cantilena.Text.Blank

/-!
# Values on one line

A value on one line is a scalar, or a list in square brackets or a mapping in braces, nested at
will.

* `plainText` -- a scalar without quotes, up to what ends it;
* `quotedText?` -- a scalar in quotes;
* `tokens` -- a line cut into brackets, commas, colons and scalars;
* `Frames.step` -- the collections that are open, moved on by one token;
* `oneLine` -- the value that a line writes.
-/

namespace Cantilena.Document

/-- A blank inside a line. -/
def isSpace (c : Char) : Bool := c == ' ' || c == '\t'

/-- Whether a text holds nothing but a comment. -/
def isBare (s : List Char) : Bool :=
  match s.dropWhile isSpace with
  | [] => true
  | c :: _ => c == '#'

/-! ## 1. Scalars -/

/-- The characters that end a scalar inside brackets. -/
def flowMarks : List Char := [',', '[', ']', '\x7b', '\x7d']

/-- Whether a colon with a text behind it ends a scalar. -/
def colonEnds (inFlow : Bool) : List Char → Bool
  | [] => true
  | c :: _ => isSpace c || (inFlow && flowMarks.contains c)

/-- A scalar without quotes, with the blanks behind it, up to what ends it, and the rest. -/
def plainRun (inFlow afterBlank : Bool) : List Char → List Char × List Char
  | [] => ([], [])
  | c :: rest =>
    if (c == '#' && afterBlank) || (c == ':' && colonEnds inFlow rest)
        || (inFlow && flowMarks.contains c) then ([], c :: rest)
    else
      let (run, tail) := plainRun inFlow (isSpace c) rest
      (c :: run, tail)

/-- A scalar without quotes, and the rest. -/
def plainText (inFlow : Bool) (s : List Char) : List Char × List Char :=
  let (run, tail) := plainRun inFlow false s
  (Text.dropEnd isSpace run, tail)

/-- The text up to a single quote, where two of them stand for one, and the rest. -/
def singleQuoted? : List Char → Option (List Char × List Char)
  | '\'' :: '\'' :: rest => (singleQuoted? rest).map fun (s, tail) => ('\'' :: s, tail)
  | '\'' :: rest => some ([], rest)
  | c :: rest => (singleQuoted? rest).map fun (s, tail) => (c :: s, tail)
  | [] => none

/-- What a character behind a backslash stands for. -/
def escape? : Char → Option Char
  | 'n' => some '\n'
  | 't' => some '\t'
  | 'r' => some '\r'
  | '\\' => some '\\'
  | '"' => some '"'
  | '/' => some '/'
  | ' ' => some ' '
  | _ => none

/-- The text up to a double quote, with its escapes resolved, and the rest. -/
def doubleQuoted? : List Char → Option (List Char × List Char)
  | '"' :: rest => some ([], rest)
  | '\\' :: c :: rest =>
    match escape? c, doubleQuoted? rest with
    | some e, some (s, tail) => some (e :: s, tail)
    | _, _ => none
  | c :: rest => (doubleQuoted? rest).map fun (s, tail) => (c :: s, tail)
  | [] => none

/-- A scalar in quotes and the rest, if a quote is at the front. -/
def quotedText? : List Char → Option (List Char × List Char)
  | '\'' :: rest => singleQuoted? rest
  | '"' :: rest => doubleQuoted? rest
  | _ => none

/-- Whether a scalar without quotes cannot start with a text. -/
def refused : List Char → Bool
  | [] => false
  | c :: rest =>
    ['\'', '"', '&', '*', '!', '|', '>', '%', '@', '\x60', ',', ']', '\x7d', '#'].contains c
      || ((c == '-' || c == '?') && colonEnds false rest)

theorem length_plainRun (inFlow afterBlank : Bool) (s : List Char) :
    (plainRun inFlow afterBlank s).2.length ≤ s.length := by
  induction s generalizing afterBlank with
  | nil => simp [plainRun]
  | cons c rest ih =>
    unfold plainRun
    split
    · simp
    · have := ih (isSpace c); simp only [List.length_cons]; omega

theorem length_singleQuoted? {s t rest : List Char} (h : singleQuoted? s = some (t, rest)) :
    rest.length < s.length := by
  fun_induction singleQuoted? s generalizing t rest with
  | case1 tail ih =>
    obtain ⟨⟨u, r⟩, hu, he⟩ := Option.map_eq_some_iff.1 h
    have := ih hu
    simp only [Prod.mk.injEq] at he
    rw [← he.2]
    simp only [List.length_cons]
    omega
  | case2 tail => simp only [Option.some.injEq, Prod.mk.injEq] at h; simp [h.2]
  | case3 c tail _ _ ih =>
    obtain ⟨⟨u, r⟩, hu, he⟩ := Option.map_eq_some_iff.1 h
    have := ih hu
    simp only [Prod.mk.injEq] at he
    rw [← he.2]
    simp only [List.length_cons]
    omega
  | case4 => simp at h

theorem length_doubleQuoted? {s t rest : List Char} (h : doubleQuoted? s = some (t, rest)) :
    rest.length < s.length := by
  fun_induction doubleQuoted? s generalizing t rest with
  | case1 tail => simp only [Option.some.injEq, Prod.mk.injEq] at h; simp [h.2]
  | case2 c tail e u r hu _ ih =>
    have := ih hu
    simp only [Option.some.injEq, Prod.mk.injEq] at h
    rw [← h.2]
    simp only [List.length_cons]
    omega
  | case3 => simp at h
  | case4 c tail _ _ ih =>
    obtain ⟨⟨u, r⟩, hu, he⟩ := Option.map_eq_some_iff.1 h
    have := ih hu
    simp only [Prod.mk.injEq] at he
    rw [← he.2]
    simp only [List.length_cons]
    omega
  | case5 => simp at h

theorem length_quotedText? {s t rest : List Char} (h : quotedText? s = some (t, rest)) :
    rest.length < s.length := by
  unfold quotedText? at h
  split at h
  · have := length_singleQuoted? h; simp only [List.length_cons]; omega
  · have := length_doubleQuoted? h; simp only [List.length_cons]; omega
  · simp at h

/-! ## 2. Tokens -/

/-- A piece of a value on one line. -/
inductive Token
  | openList
  | closeList
  | openMapping
  | closeMapping
  | comma
  | colon
  | scalar (value : Scalar)
  deriving Inhabited

/-- The piece that one character writes. -/
def Token.ofChar? : Char → Option Token
  | '[' => some .openList
  | ']' => some .closeList
  | '\x7b' => some .openMapping
  | '\x7d' => some .closeMapping
  | ',' => some .comma
  | ':' => some .colon
  | _ => none

/-- A scalar in quotes, which is a text. -/
def Token.ofQuoted (s : List Char) : Token := .scalar (.text (String.ofList s))

/-- A line cut into pieces, without the comment at its end. -/
def tokens (s : List Char) : Except Fault (List Token) :=
  match s with
  | [] => .ok []
  | c :: rest =>
    if isSpace c then tokens rest
    else if c == '#' then .ok []
    else
      match Token.ofChar? c with
      | some t => (tokens rest).map (t :: ·)
      | none =>
        match h : quotedText? (c :: rest) with
        | some (text, tail) =>
          have := length_quotedText? h
          (tokens tail).map (Token.ofQuoted text :: ·)
        | none =>
          if refused (c :: rest) then .error .configurationText
          else
            have := length_plainRun true (isSpace c) rest
            let run := plainRun true (isSpace c) rest
            (tokens run.2).bind fun more =>
              (scalarOf (Text.dropEnd isSpace (c :: run.1))).map fun v => Token.scalar v :: more
termination_by s.length
decreasing_by all_goals simp only [List.length_cons] at *; omega

/-! ## 3. Collections -/

/-- A collection that is open. A mapping, and a mapping of one entry that stands in a list without
    braces, may hold a key that still waits for its value. -/
inductive Frame
  | list (items : List Value) (key : Option Scalar)
  | mapping (entries : Entries) (key : Option Scalar)
  deriving Inhabited

/-- The collections that are open, the innermost first, and the value that has just been read. -/
structure Frames where
  opened : List Frame := []
  read : Option Value := none
  deriving Inhabited

namespace Frames

/-- A collection with the value that has just been read as its next one. -/
def settle (read : Option Value) : Frame → Option Frame
  | .list items (some key) =>
    some (.list (items ++ [.mapping [(key, read.getD .null)]]) none)
  | .list items none => read.map fun v => .list (items ++ [v]) none
  | .mapping entries (some key) => some (.mapping (Value.put key (read.getD .null) entries) none)
  | .mapping entries none =>
    match read with
    | some (.scalar key) => some (.mapping (Value.put key .null entries) none)
    | _ => none

/-- Whether a collection waits for the value of a key. -/
def waits : Frame → Bool
  | .list _ key => key.isSome
  | .mapping _ key => key.isSome

/-- A collection at its end: a comma may stand in front of it. -/
def finish (read : Option Value) (f : Frame) : Option Value :=
  let settled := if read.isSome || waits f then settle read f else some f
  settled.map fun f =>
    match f with
    | .list items _ => .list items
    | .mapping entries _ => .mapping entries

/-- Moves on by one piece. Nothing is returned where the piece does not fit. -/
def step (s : Frames) (t : Token) : Option Frames :=
  match t, s.opened, s.read with
  | .openList, opened, none => some ⟨.list [] none :: opened, none⟩
  | .openMapping, opened, none => some ⟨.mapping [] none :: opened, none⟩
  | .scalar v, opened, none => some ⟨opened, some (.scalar v)⟩
  | .colon, .mapping entries none :: outer, some (.scalar key) =>
    some ⟨.mapping entries (some key) :: outer, none⟩
  | .colon, .list items none :: outer, some (.scalar key) =>
    some ⟨.list items (some key) :: outer, none⟩
  | .comma, f :: outer, read => (settle read f).map fun f => ⟨f :: outer, none⟩
  | .closeList, .list items key :: outer, read =>
    (finish read (.list items key)).map fun v => ⟨outer, some v⟩
  | .closeMapping, .mapping entries key :: outer, read =>
    (finish read (.mapping entries key)).map fun v => ⟨outer, some v⟩
  | _, _, _ => none

/-- Moves on by pieces. -/
def run (s : Frames) : List Token → Option Frames
  | [] => some s
  | t :: rest => (s.step t).bind fun s => s.run rest

end Frames

/-- The value that pieces write, all of them together. -/
def valueOf (ts : List Token) : Except Fault Value :=
  match Frames.run {} ts with
  | some ⟨[], some v⟩ => .ok v
  | _ => .error .configurationText

/-! ## 4. Lines -/

/-- The value that the rest of a line writes. -/
def oneLine (s : List Char) : Except Fault Value :=
  match s.dropWhile isSpace with
  | [] => .ok .null
  | c :: rest =>
    if c == '[' || c == '\x7b' then tokens (c :: rest) >>= valueOf
    else
      match quotedText? (c :: rest) with
      | some (text, tail) =>
        if isBare tail then .ok (.text (String.ofList text)) else .error .configurationText
      | none =>
        let (text, tail) := plainText false (c :: rest)
        if refused (c :: rest) || !isBare tail then .error .configurationText
        else (scalarOf text).map .scalar

end Cantilena.Document
