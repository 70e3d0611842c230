import Cantilena.Text.Digit

/-!
# Words and options

The words of a command line are operands and options. An option may be cut short as long as no
other one starts the same way; its value is the next word, or stands behind an equals sign; and
options of one letter may share a dash. A word of two dashes makes operands of all words behind
it; two dashes that are the value of an option within its own word give it nothing.

* `Opt` -- an option: its names and what it does to the settings that are being read;
* `classify`, `wordsOf` -- what words are;
* `Found.cluster` -- the options that one word names, and what is left to be read for them;
* `consume` -- carries an option out.
-/

namespace Cantilena.Command

/-! ## 1. Options -/

/-- Why a command line is not carried out: help was asked for, or it is misused. -/
inductive Stop
  | help | misuse
  deriving DecidableEq, Repr, Inhabited

/-- The code with which a stopped command line ends. -/
def Stop.code : Stop → Int
  | .help => 0
  | .misuse => 2

/-- What an option is given: a value, or nothing at all. -/
abbrev Given (α : Type) := Option α

/-- What an option does to settings. -/
inductive Effect (α : Type)
  | help
  | flag (set : α → α)
  /-- The value may be refused. -/
  | value (set : Given String → α → Option α)

/-- An option. -/
structure Opt (α : Type) where
  names : List String
  effect : Effect α

/-- The option that asks for help. -/
def helpOption {α : Type} : Opt α := ⟨["-h", "--help"], .help⟩

/-- An option that a word names: its name and effect, and the text behind the name if there is
    one. -/
structure Found (α : Type) where
  name : List Char
  effect : Effect α
  inner : Option (List Char) := none

/-- What a word of a command line is. -/
inductive Word (α : Type)
  | operand
  /-- The two dashes. -/
  | separator
  | option (found : Found α)
  /-- An option that there is not. -/
  | unknown

variable {α : Type}

/-- The names of options with their effects. -/
def named (options : List (Opt α)) : List (List Char × Effect α) :=
  options.flatMap fun o => o.names.map fun n => (n.toList, o.effect)

/-- The effect of an exact name. -/
def effectOf? (options : List (Opt α)) (name : List Char) : Option (Effect α) :=
  (named options).lookup name

/-! ## 2. Words -/

/-- The text before the first equals sign, and the text behind it if there is one. -/
def splitEquals (word : List Char) : List Char × Option (List Char) :=
  match word.dropWhile (· != '=') with
  | [] => (word, none)
  | _ :: rest => (word.takeWhile (· != '='), some rest)

/-- The options that a word may be short for. -/
def candidates (options : List (Opt α)) (word : List Char) : List (Found α) :=
  match word with
  | '-' :: '-' :: _ =>
    let (start, inner) := splitEquals word
    (named options).filterMap fun (n, e) =>
      if start.isPrefixOf n then some ⟨n, e, inner⟩ else none
  | _ =>
    (named options).filterMap fun (n, e) =>
      if n = word.take 2 then some ⟨n, e, some (word.drop 2)⟩
      else if word.isPrefixOf n then some ⟨n, e, none⟩
      else none

/-- Whether a character is a decimal digit of some script. -/
def isDecimal (c : Char) : Bool := (Text.decimalValue c).isSome

/-- Whether a text is a number with a minus, with a fraction or without. A line feed may follow
    it. -/
def isNegative (word : List Char) : Bool :=
  match word with
  | '-' :: body =>
    let body := if body.getLast? = some '\n' then body.dropLast else body
    match body.dropWhile isDecimal with
    | [] => !body.isEmpty
    | '.' :: places => !places.isEmpty && places.all isDecimal
    | _ => false
  | _ => false

/-- What a word is, unless it is the two dashes. A word that may be short for two options is
    misuse. -/
def classify (options : List (Opt α)) (word : List Char) : Except Stop (Word α) :=
  if word.head? ≠ some '-' then .ok .operand
  else
    match effectOf? options word with
    | some e => .ok (.option ⟨word, e, none⟩)
    | none =>
      if word.length = 1 then .ok .operand
      else
        let (name, inner) := splitEquals word
        match inner, effectOf? options name with
        | some inner, some e => .ok (.option ⟨name, e, some inner⟩)
        | _, _ =>
          match candidates options word with
          | [found] => .ok (.option found)
          | _ :: _ :: _ => .error .misuse
          | [] => .ok (if isNegative word || word.contains ' ' then .operand else .unknown)

/-- What the words of a command line are, with the words themselves. -/
def wordsOf (options : List (Opt α)) : List String → Except Stop (List (String × Word α))
  | [] => .ok []
  | w :: rest =>
    if w = "--" then .ok ((w, .separator) :: rest.map fun w => (w, .operand))
    else do
      let word ← classify options w.toList
      return (w, word) :: (← wordsOf options rest)

/-! ## 3. Carrying options out -/

/-- A change of settings, which may stop. -/
abbrev Change (α : Type) := α → Except Stop α

/-- What is left to be read after the options that a word names. -/
inductive Tail (α : Type)
  | done
  /-- The last option takes the next word as its value. -/
  | wantsWord (set : Given String → α → Option α)

/-- The change that an option without value makes. -/
def Effect.change : Effect α → Change α
  | .help => fun _ => .error .help
  | .flag set => fun a => .ok (set a)
  | .value _ => fun a => .ok a

/-- The change that a value makes. -/
def changeBy (set : Given String → α → Option α) (value : Given String) : Change α := fun a =>
  match set value a with
  | some a => .ok a
  | none => .error .misuse

/-- What an option is given by the text behind its name. -/
def givenBy (text : List Char) : Given String :=
  if text = ['-', '-'] then none else some (String.ofList text)

/-- The changes of an option, with those of the letters behind it if it takes no value, and what is
    left. Nothing may stand behind an option of a `long` name that takes no value. -/
def clusterFrom (options : List (Opt α)) (effect : Effect α) (long : Bool) :
    List Char → Except Stop (List (Change α) × Tail α)
  | [] =>
    match effect with
    | .value set => .ok ([changeBy set (some "")], .done)
    | _ => .error .misuse
  | c :: rest =>
    match effect with
    | .value set => .ok ([changeBy set (givenBy (c :: rest))], .done)
    | _ =>
      if long then .error .misuse
      else
        match effectOf? options ['-', c], rest with
        | none, _ => .error .misuse
        | some (.value set), [] => .ok ([effect.change], .wantsWord set)
        | some next, [] => .ok ([effect.change, next.change], .done)
        | some next, c :: inner =>
          (clusterFrom options next false (c :: inner)).map fun (changes, tail) =>
            (effect.change :: changes, tail)

/-- The changes of the options that one word names, and what is left. -/
def Found.cluster (options : List (Opt α)) (f : Found α) :
    Except Stop (List (Change α) × Tail α) :=
  match f.inner, f.effect with
  | none, .value set => .ok ([], .wantsWord set)
  | none, e => .ok ([e.change], .done)
  | some inner, e => clusterFrom options e (['-', '-'].isPrefixOf f.name) inner

/-- How far the reading of a command line has come: the settings, the operand if there is one, and
    whether anything was left over. -/
structure Reading (α : Type) where
  settings : α
  operand : Option String := none
  leftOver : Bool := false

/-- Changes settings by one change after the other. -/
def applyAll (changes : List (Change α)) (a : α) : Except Stop α :=
  changes.foldlM (fun a change => change a) a

/-- Carries an option out, and says whether the next word is used up for it. -/
def consume (options : List (Opt α)) (f : Found α) (r : Reading α)
    (rest : List (String × Word α)) : Except Stop (Reading α × Bool) := do
  let (changes, tail) ← f.cluster options
  match tail with
  | .done => return ({ r with settings := ← applyAll changes r.settings }, false)
  | .wantsWord set =>
    match rest with
    | (value, .operand) :: _ =>
      let changes := changes ++ [changeBy set (some value)]
      return ({ r with settings := ← applyAll changes r.settings }, true)
    | _ => throw .misuse

/-- Reads options up to the first operand: the settings then, and the words from there on. -/
def readOptions (options : List (Opt α)) (r : Reading α) (words : List (String × Word α)) :
    Except Stop (Reading α × List (String × Word α)) :=
  match words with
  | (_, .option found) :: rest => do
    let (r, used) ← consume options found r rest
    if used then readOptions options r (rest.drop 1) else readOptions options r rest
  | (_, .unknown) :: rest => readOptions options { r with leftOver := true } rest
  | words => .ok (r, words)
termination_by words.length
decreasing_by all_goals simp only [List.length_drop, List.length_cons]; omega

/-- A reading with its operand, or with something left over if it has one. -/
def Reading.take (r : Reading α) (word : String) : Reading α :=
  match r.operand with
  | none => { r with operand := some word }
  | some _ => { r with leftOver := true }

/-- Reads options and one operand among them. The two dashes may stand on one side of it. -/
def readAll (options : List (Opt α)) (r : Reading α) (words : List (String × Word α)) :
    Except Stop (Reading α) :=
  match words with
  | [] => .ok r
  | (_, .option found) :: rest => do
    let (r, used) ← consume options found r rest
    if used then readAll options r (rest.drop 1) else readAll options r rest
  | (_, .unknown) :: rest => readAll options { r with leftOver := true } rest
  | (w, .operand) :: (_, .separator) :: rest => readAll options (r.take w) rest
  | (w, .operand) :: rest => readAll options (r.take w) rest
  | (_, .separator) :: (w, .operand) :: rest => readAll options (r.take w) rest
  | (_, .separator) :: rest => readAll options { r with leftOver := true } rest
termination_by words.length
decreasing_by all_goals simp only [List.length_drop, List.length_cons]; omega

end Cantilena.Command
