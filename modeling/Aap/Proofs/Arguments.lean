import Aap.Proofs.Numeral
import Mathlib.Data.List.Induction

/-!
# Arguments in groups

The arguments of a run come in groups: an option with its value, a switch, or the
code image.  The groups may stand in any order, and the last value of an option
counts.  What stands behind the first groups decides the answer: nothing at all, a
request for help, or the first argument that is no group.
-/

namespace Aap.CommandLine

/-- The option takes the number that the text writes. -/
def NumberOption.Accepts (option : NumberOption) (text : String) (number : Nat) : Prop :=
  Writes text number ∧ number < 2 ^ option.width

theorem NumberOption.read_eq_ok_iff (option : NumberOption) (text : String) (number : Nat) :
    option.read text = .ok number ↔ option.Accepts text number := by
  have widthLe : 2 ^ option.width ≤ 2 ^ 64 := by cases option <;> decide
  rw [read_eq, boundedNumber_eq_ok_iff, Accepts]
  constructor
  · rintro ⟨writes, -, below⟩
    exact ⟨writes, below⟩
  · rintro ⟨writes, below⟩
    exact ⟨writes, by omega, below⟩

/-- Arguments that belong together.  The value of an option may be any text that it
takes, also one that begins with a minus sign. -/
inductive Group where
  | number (option : NumberOption) (text : String) (number : Nat)
      (accepted : option.Accepts text number)
  | dataFile (path : String)
  | resync
  | abortOnUnknown
  | codeFile (path : String) (plain : path.toList.head? ≠ some '-')
  deriving DecidableEq

/-- The spellings of a request for help. -/
def helpNames : List String :=
  ["-h", "--help"]

def resyncName : String := "--resync"

def abortOnUnknownName : String := "--abort-on-unknown"

def numberOptions : List NumberOption :=
  [.codeAddress, .dataAddress, .entry, .maxSteps]

/-- All that is an option. -/
def optionNames : List String :=
  helpNames ++ numberOptions.map NumberOption.name ++
    [dataFileName, resyncName, abortOnUnknownName]

namespace Group

def arguments : Group → List String
  | number option text _ _ => [option.name, text]
  | dataFile path => [dataFileName, path]
  | resync => [resyncName]
  | abortOnUnknown => [abortOnUnknownName]
  | codeFile path _ => [path]

def number? (option : NumberOption) : Group → Option Nat
  | number given _ value _ => if given = option then some value else none
  | _ => none

def dataPath? : Group → Option String
  | dataFile path => some path
  | _ => none

def codePath? : Group → Option String
  | codeFile path _ => some path
  | _ => none

def isResync : Group → Bool
  | resync => true
  | _ => false

def isAbortOnUnknown : Group → Bool
  | abortOnUnknown => true
  | _ => false

end Group

/-- The arguments of groups, one group behind the other. -/
def written (groups : List Group) : List String :=
  groups.flatMap Group.arguments

/-- The code images that groups name. -/
def images (groups : List Group) : List String :=
  groups.filterMap Group.codePath?

/-- The last value that groups give to an option. -/
def lastNumber? (option : NumberOption) (groups : List Group) : Option Nat :=
  (groups.filterMap (Group.number? option)).getLast?

/-- The settings that groups make: the last value of each option, or its default, and
whether each switch occurs. -/
def settingsOf (groups : List Group) : Settings where
  codeAddress := (lastNumber? .codeAddress groups).getD 0
  dataPath := (groups.filterMap Group.dataPath?).getLast?
  dataAddress := (lastNumber? .dataAddress groups).getD 0
  entry := BitVec.ofNat 16 ((lastNumber? .entry groups).getD 0)
  maxSteps := lastNumber? .maxSteps groups
  resync := groups.any Group.isResync
  abortOnUnknown := groups.any Group.isAbortOnUnknown

theorem images_append (first second : List Group) :
    images (first ++ second) = images first ++ images second :=
  List.filterMap_append

theorem images_concat (groups : List Group) (group : Group) :
    images (groups ++ [group]) = images groups ++ group.codePath?.toList := by
  rw [images_append]
  cases group <;> rfl

theorem images_concat_of_none (groups : List Group) {group : Group}
    (noImage : group.codePath? = none) : images (groups ++ [group]) = images groups := by
  rw [images_concat, noImage, Option.toList_none, List.append_nil]

theorem written_append (first second : List Group) :
    written (first ++ second) = written first ++ written second :=
  List.flatMap_append

/-- The settings after one more group. -/
def Group.apply (settings : Settings) : Group → Settings
  | number option _ value _ => option.assign value settings
  | dataFile path => { settings with dataPath := some path }
  | resync => { settings with resync := true }
  | abortOnUnknown => { settings with abortOnUnknown := true }
  | codeFile _ _ => settings

/-- What the last group tells counts, and what the groups before it tell otherwise. -/
theorem getLast?_filterMap_concat {Value : Type} (value? : Group → Option Value)
    (groups : List Group) (group : Group) :
    ((groups ++ [group]).filterMap value?).getLast? =
      (value? group).or (groups.filterMap value?).getLast? := by
  rw [List.filterMap_append, List.getLast?_append]
  cases told : value? group <;> simp [told]

theorem settingsOf_concat (groups : List Group) (group : Group) :
    settingsOf (groups ++ [group]) = group.apply (settingsOf groups) := by
  simp only [settingsOf, lastNumber?, getLast?_filterMap_concat, List.any_append, List.any_cons,
    List.any_nil, Bool.or_false]
  cases group with
  | number option text number accepted =>
      simp only [Group.isResync, Group.isAbortOnUnknown, Bool.or_false]
      cases option <;> rfl
  | _ =>
      simp only [Group.isResync, Group.isAbortOnUnknown, Bool.or_false, Bool.or_true]
      rfl

theorem Argument.ofText_name (option : NumberOption) :
    Argument.ofText option.name = .number option := by
  cases option <;> rfl

theorem Argument.ofText_help {text : String} (asks : text ∈ helpNames) :
    Argument.ofText text = .help := by
  rcases List.mem_pair.mp asks with rfl | rfl <;> rfl

theorem Argument.ofText_unlisted {text : String} (unlisted : text ∉ optionNames) :
    Argument.ofText text =
      if text.toList.head? = some '-' then .unknown text else .codeFile text := by
  unfold Argument.ofText
  split
  case h_10 =>
    split
    · next rest textEq => rw [textEq, List.head?_cons, if_pos rfl]
    · next noMinus =>
        have plain : text.toList.head? ≠ some '-' := by
          intro headEq
          obtain ⟨rest, textEq⟩ := List.head?_eq_some_iff.mp headEq
          exact noMinus rest textEq
        rw [if_neg plain]
  all_goals exact absurd (by decide) unlisted

theorem head?_of_mem_optionNames : ∀ name ∈ optionNames, name.toList.head? = some '-' := by
  decide

theorem Argument.ofText_plain {text : String} (plain : text.toList.head? ≠ some '-') :
    Argument.ofText text = .codeFile text := by
  have unlisted : text ∉ optionNames := fun member =>
    plain (head?_of_mem_optionNames text member)
  rw [ofText_unlisted unlisted, if_neg plain]

/-- A group adds to the settings and images that stand before it. -/
theorem parseFrom_arguments {groups : List Group} {group : Group}
    (single : (images (groups ++ [group])).length ≤ 1) (rest : List String) :
    parseFrom (images groups).head? (settingsOf groups) (group.arguments ++ rest) =
      parseFrom (images (groups ++ [group])).head? (settingsOf (groups ++ [group])) rest := by
  rw [settingsOf_concat]
  cases group with
  | number option text number accepted =>
      have readEq := (option.read_eq_ok_iff text number).mpr accepted
      rw [images_concat_of_none groups rfl, parseFrom.eq_def]
      simp only [Group.arguments, List.cons_append, Argument.ofText_name, readEq, Group.apply,
        List.nil_append]
  | dataFile path =>
      rw [images_concat_of_none groups rfl]
      rfl
  | resync =>
      rw [images_concat_of_none groups rfl]
      rfl
  | abortOnUnknown =>
      rw [images_concat_of_none groups rfl]
      rfl
  | codeFile path plain =>
      rw [images_concat, List.length_append] at single
      have noneBefore : images groups = [] :=
        List.eq_nil_of_length_eq_zero (Nat.le_zero.mp (Nat.le_of_add_le_add_right single))
      rw [images_concat, noneBefore, Group.arguments, List.singleton_append, parseFrom.eq_def]
      simp only [Argument.ofText_plain plain]
      rfl

/-- Behind groups, the arguments are read with the settings and image of the groups. -/
theorem parse_written_append {groups : List Group} (single : (images groups).length ≤ 1)
    (rest : List String) :
    parse (written groups ++ rest) =
      parseFrom (images groups).head? (settingsOf groups) rest := by
  -- The groups are taken from the end, since each is read with what stands before it.
  induction groups using List.reverseRecOn generalizing rest with
  | nil => rfl
  | append_singleton groups group induction =>
      have singleBefore : (images groups).length ≤ 1 := by
        rw [images_append, List.length_append] at single
        omega
      rw [written_append, List.append_assoc, induction singleBefore,
        ← parseFrom_arguments single]
      simp [written]

/-- The first of some arguments is at fault, behind groups that name the given images. -/
inductive Offends (given : List String) : List String → ArgumentError → Prop
  | missingNumber (option : NumberOption) :
      Offends given [option.name] (.missingValue option.name)
  | missingPath : Offends given [dataFileName] (.missingValue dataFileName)
  | invalidNumber (option : NumberOption) (text : String) (rest : List String)
      (unreadable : ∀ number, Writes text number → 2 ^ 64 ≤ number) :
      Offends given (option.name :: text :: rest) (.invalidNumber option.name text)
  | outOfRange (option : NumberOption) {text : String} {number : Nat} (rest : List String)
      (writes : Writes text number) (numberLt : number < 2 ^ 64)
      (tooLarge : 2 ^ option.width ≤ number) :
      Offends given (option.name :: text :: rest) (.outOfRange option.name number)
  | unknownOption {text : String} (rest : List String) (minus : text.toList.head? = some '-')
      (unlisted : text ∉ optionNames) : Offends given (text :: rest) (.unknownOption text)
  | severalImages {path : String} (rest : List String) (plain : path.toList.head? ≠ some '-')
      (hasImage : given ≠ []) : Offends given (path :: rest) .severalImages

/-- What stands behind some groups decides the answer. -/
inductive Decides (groups : List Group) : List String → Except ArgumentError Request → Prop
  | run {path : String} (imagesEq : images groups = [path]) :
      Decides groups [] (.ok (.run path (settingsOf groups)))
  | noImage (imagesEq : images groups = []) : Decides groups [] (.error .noImage)
  | help {text : String} (asks : text ∈ helpNames) (rest : List String) :
      Decides groups (text :: rest) (.ok .help)
  | fault {rest : List String} {error : ArgumentError}
      (offends : Offends (images groups) rest error) : Decides groups rest (.error error)

theorem Offends.parseFrom_eq {given rest : List String} {error : ArgumentError}
    (offends : Offends given rest error) (settings : Settings) :
    parseFrom given.head? settings rest = .error error := by
  cases offends with
  | missingNumber option => simp [parseFrom, Argument.ofText_name]
  | missingPath => rfl
  | invalidNumber option text rest unreadable =>
      have readEq : option.read text = .error (.invalidNumber option.name text) := by
        rw [option.read_eq, boundedNumber_eq_error_iff]
        exact .inl ⟨rfl, unreadable⟩
      simp [parseFrom, Argument.ofText_name, readEq]
  | @outOfRange option text number rest writes numberLt tooLarge =>
      have readEq : option.read text = .error (.outOfRange option.name number) := by
        rw [option.read_eq, boundedNumber_eq_error_iff]
        exact .inr ⟨number, rfl, writes, numberLt, tooLarge⟩
      simp [parseFrom, Argument.ofText_name, readEq]
  | unknownOption rest minus unlisted =>
      rw [parseFrom.eq_def]
      simp only [Argument.ofText_unlisted unlisted, if_pos minus]
  | severalImages rest plain hasImage =>
      obtain ⟨path, more, rfl⟩ := List.exists_cons_of_ne_nil hasImage
      rw [parseFrom.eq_def]
      simp only [Argument.ofText_plain plain, List.head?_cons]

theorem Decides.parseFrom_eq {groups : List Group} {rest : List String}
    {answer : Except ArgumentError Request} (decides : Decides groups rest answer) :
    parseFrom (images groups).head? (settingsOf groups) rest = answer := by
  cases decides with
  | run imagesEq => rw [imagesEq, List.head?_cons, parseFrom]
  | noImage imagesEq => rw [imagesEq, List.head?_nil, parseFrom]
  | help asks rest =>
      rw [parseFrom.eq_def]
      simp only [Argument.ofText_help asks]
  | fault offends => exact offends.parseFrom_eq _

theorem mem_optionNames_iff (text : String) :
    text ∈ optionNames ↔ text ∈ helpNames ∨ (∃ option : NumberOption, text = option.name) ∨
      text = dataFileName ∨ text = resyncName ∨ text = abortOnUnknownName := by
  have listed (option : NumberOption) : option ∈ numberOptions := by
    cases option <;> decide
  simp [optionNames, listed, eq_comm]

/-- The first of some arguments begins a group, or decides the answer. -/
theorem first_cases {groups : List Group} (single : (images groups).length ≤ 1) (text : String)
    (rest : List String) :
    (∃ group more, text :: rest = group.arguments ++ more ∧
      (images (groups ++ [group])).length ≤ 1) ∨
    ∃ answer, Decides groups (text :: rest) answer := by
  have imagesEq {group : Group} (noImage : group.codePath? = none) :
      (images (groups ++ [group])).length ≤ 1 := by
    rwa [images_concat_of_none groups noImage]
  by_cases listed : text ∈ optionNames
  · rcases (mem_optionNames_iff text).mp listed with asks | ⟨option, rfl⟩ | rfl | rfl | rfl
    · exact .inr ⟨_, .help asks rest⟩
    · cases rest with
      | nil => exact .inr ⟨_, .fault (.missingNumber option)⟩
      | cons value more =>
          cases readEq : option.read value with
          | ok number =>
              have accepted := (option.read_eq_ok_iff value number).mp readEq
              exact .inl ⟨.number option value number accepted, more, rfl, imagesEq rfl⟩
          | error error =>
              rw [option.read_eq, boundedNumber_eq_error_iff] at readEq
              rcases readEq with ⟨-, unreadable⟩ | ⟨number, -, writes, numberLt, tooLarge⟩
              · exact .inr ⟨_, .fault (.invalidNumber option value more unreadable)⟩
              · exact .inr ⟨_, .fault (.outOfRange option more writes numberLt tooLarge)⟩
    · cases rest with
      | nil => exact .inr ⟨_, .fault .missingPath⟩
      | cons path more => exact .inl ⟨.dataFile path, more, rfl, imagesEq rfl⟩
    · exact .inl ⟨.resync, rest, rfl, imagesEq rfl⟩
    · exact .inl ⟨.abortOnUnknown, rest, rfl, imagesEq rfl⟩
  · by_cases minus : text.toList.head? = some '-'
    · exact .inr ⟨_, .fault (.unknownOption rest minus listed)⟩
    · by_cases noImage : images groups = []
      · refine .inl ⟨.codeFile text minus, rest, rfl, ?_⟩
        rw [images_concat, noImage]
        exact Nat.le_refl 1
      · exact .inr ⟨_, .fault (.severalImages rest minus noImage)⟩

/-- All arguments are groups up to a place where the answer is decided. -/
theorem exists_decides {groups : List Group} (single : (images groups).length ≤ 1)
    (arguments : List String) :
    ∃ further rest answer, written groups ++ arguments = written further ++ rest ∧
      (images further).length ≤ 1 ∧ Decides further rest answer := by
  induction lengthEq : arguments.length using Nat.strong_induction_on
    generalizing groups arguments with
  | _ length induction =>
      cases arguments with
      | nil =>
          cases imagesEq : images groups with
          | nil => exact ⟨groups, [], _, rfl, single, .noImage imagesEq⟩
          | cons path paths =>
              rw [imagesEq, List.length_cons] at single
              have noMore : paths = [] := List.eq_nil_of_length_eq_zero (by omega)
              rw [noMore] at imagesEq
              exact ⟨groups, [], _, rfl, by simp [imagesEq], .run imagesEq⟩
      | cons text rest =>
          rcases first_cases single text rest with
            ⟨group, more, argumentsEq, singleAfter⟩ | ⟨answer, decides⟩
          · have shorter : more.length < length := by
              have lengthsEq := congrArg List.length argumentsEq
              have nonempty : 0 < group.arguments.length := by cases group <;> exact Nat.succ_pos _
              rw [List.length_append] at lengthsEq
              omega
            obtain ⟨further, behind, answer, furtherEq, singleFurther, decides⟩ :=
              induction more.length shorter singleAfter more rfl
            refine ⟨further, behind, answer, ?_, singleFurther, decides⟩
            rw [argumentsEq, ← furtherEq, written_append, List.append_assoc]
            simp [written]
          · exact ⟨groups, text :: rest, answer, rfl, single, decides⟩

/-- The answer to arguments is the one that is decided behind their groups. -/
theorem parse_eq_iff (arguments : List String) (answer : Except ArgumentError Request) :
    parse arguments = answer ↔ ∃ groups rest, arguments = written groups ++ rest ∧
      (images groups).length ≤ 1 ∧ Decides groups rest answer := by
  have parse_eq {groups : List Group} {rest : List String}
      {decided : Except ArgumentError Request} (argumentsEq : arguments = written groups ++ rest)
      (single : (images groups).length ≤ 1) (decides : Decides groups rest decided) :
      parse arguments = decided := by
    rw [argumentsEq, parse_written_append single, decides.parseFrom_eq]
  constructor
  · rintro rfl
    have noImage : (images []).length ≤ 1 := Nat.zero_le 1
    obtain ⟨groups, rest, answer, argumentsEq, single, decides⟩ := exists_decides noImage arguments
    have answerEq := parse_eq argumentsEq single decides
    exact ⟨groups, rest, argumentsEq, single, answerEq ▸ decides⟩
  · rintro ⟨groups, rest, argumentsEq, single, decides⟩
    exact parse_eq argumentsEq single decides

/-- Behind a second code image, nothing is looked at. -/
theorem parse_of_several {groups : List Group} (several : 1 < (images groups).length)
    (rest : List String) : parse (written groups ++ rest) = .error .severalImages := by
  induction groups using List.reverseRecOn generalizing rest with
  | nil => cases several
  | append_singleton groups group induction =>
      have writtenEq : written (groups ++ [group]) ++ rest =
          written groups ++ (group.arguments ++ rest) := by
        simp [written]
      rw [writtenEq]
      by_cases severalBefore : 1 < (images groups).length
      · exact induction severalBefore _
      · -- The last group names the second image.
        rw [parse_written_append (Nat.le_of_not_lt severalBefore)]
        cases group with
        | codeFile path plain =>
            have hasImage : images groups ≠ [] := by
              intro noImage
              rw [images_concat, noImage] at several
              exact Nat.lt_irrefl 1 several
            exact (Offends.severalImages rest plain hasImage).parseFrom_eq _
        | _ =>
            rw [images_concat_of_none groups rfl] at several
            exact absurd several severalBefore

/-- The option that a group gives; the code image is none. -/
def Group.name? : Group → Option String
  | number option _ _ _ => some option.name
  | dataFile _ => some dataFileName
  | resync => some resyncName
  | abortOnUnknown => some abortOnUnknownName
  | codeFile _ _ => none

/-- The same groups in another order, in which the occurrences of each option follow
each other as before. -/
structure Reorders (groups reordered : List Group) : Prop where
  perm : reordered.Perm groups
  inOrder : ∀ name, (reordered.filter fun group => group.name? = some name) =
    groups.filter fun group => group.name? = some name

namespace Reorders

variable {groups reordered : List Group}

/-- What only one option tells is told in the same order. -/
theorem filterMap_eq (reorders : Reorders groups reordered) {Value : Type}
    {value? : Group → Option Value} (name : String)
    (toldBy : ∀ group, group.name? ≠ some name → value? group = none) :
    reordered.filterMap value? = groups.filterMap value? := by
  have filtered (list : List Group) :
      (list.filter fun group => group.name? = some name).filterMap value? =
        list.filterMap value? := by
    rw [List.filterMap_filter]
    congr 1
    funext group
    by_cases isNamed : group.name? = some name
    · simp [isNamed]
    · simp [isNamed, toldBy group isNamed]
  rw [← filtered reordered, ← filtered groups, reorders.inOrder]

theorem lastNumber?_eq (reorders : Reorders groups reordered) (option : NumberOption) :
    lastNumber? option reordered = lastNumber? option groups := by
  rw [lastNumber?, lastNumber?, reorders.filterMap_eq option.name]
  intro group otherName
  cases group with
  | number given text number accepted =>
      have givenNe : given ≠ option := by
        rintro rfl
        exact otherName rfl
      rw [Group.number?, if_neg givenNe]
  | _ => rfl

theorem settingsOf_eq (reorders : Reorders groups reordered) :
    settingsOf reordered = settingsOf groups := by
  have dataPathEq : reordered.filterMap Group.dataPath? = groups.filterMap Group.dataPath? := by
    apply reorders.filterMap_eq dataFileName
    intro group otherName
    cases group with
    | dataFile path => exact absurd rfl otherName
    | _ => rfl
  simp only [settingsOf, reorders.lastNumber?_eq, dataPathEq, reorders.perm.any_eq]

theorem parse_eq (reorders : Reorders groups reordered) :
    parse (written reordered) = parse (written groups) := by
  have imagesPerm : (images reordered).Perm (images groups) :=
    reorders.perm.filterMap Group.codePath?
  by_cases single : (images groups).length ≤ 1
  · have imagesEq : images reordered = images groups := by
      match namedEq : images groups with
      | [] => exact (namedEq ▸ imagesPerm).eq_nil
      | [path] => exact List.perm_singleton.mp (namedEq ▸ imagesPerm)
      | _ :: _ :: _ =>
          rw [namedEq, List.length_cons, List.length_cons] at single
          omega
    have parsed := parse_written_append single []
    have parsedReordered := parse_written_append (imagesEq ▸ single) []
    rw [List.append_nil] at parsed parsedReordered
    rw [parsed, parsedReordered, imagesEq, reorders.settingsOf_eq]
  · have several : 1 < (images groups).length := Nat.lt_of_not_le single
    have refused := parse_of_several several []
    have refusedReordered := parse_of_several (imagesPerm.length_eq ▸ several) []
    rw [List.append_nil] at refused refusedReordered
    rw [refused, refusedReordered]

end Reorders

section Answers

variable (arguments : List String)

theorem parse_eq_run_iff (path : String) (settings : Settings) :
    parse arguments = .ok (.run path settings) ↔
      ∃ groups, arguments = written groups ∧ images groups = [path] ∧
        settings = settingsOf groups := by
  rw [parse_eq_iff]
  constructor
  · rintro ⟨groups, rest, argumentsEq, -, decides⟩
    cases decides with
    | run imagesEq => exact ⟨groups, by rw [argumentsEq, List.append_nil], imagesEq, rfl⟩
  · rintro ⟨groups, argumentsEq, imagesEq, rfl⟩
    have single : (images groups).length ≤ 1 := by simp [imagesEq]
    exact ⟨groups, [], by rw [argumentsEq, List.append_nil], single, .run imagesEq⟩

theorem parse_eq_help_iff :
    parse arguments = .ok .help ↔
      ∃ groups text rest, arguments = written groups ++ text :: rest ∧
        (text = "-h" ∨ text = "--help") ∧ (images groups).length ≤ 1 := by
  rw [parse_eq_iff]
  constructor
  · rintro ⟨groups, rest, argumentsEq, single, decides⟩
    cases decides with
    | help asks more => exact ⟨groups, _, more, argumentsEq, List.mem_pair.mp asks, single⟩
  · rintro ⟨groups, text, rest, argumentsEq, asks, single⟩
    exact ⟨groups, _, argumentsEq, single, .help (List.mem_pair.mpr asks) rest⟩

theorem parse_eq_error_iff (error : ArgumentError) :
    parse arguments = .error error ↔
      (error = .noImage ∧ ∃ groups, arguments = written groups ∧ images groups = []) ∨
      ∃ groups rest, arguments = written groups ++ rest ∧ (images groups).length ≤ 1 ∧
        Offends (images groups) rest error := by
  rw [parse_eq_iff]
  constructor
  · rintro ⟨groups, rest, argumentsEq, single, decides⟩
    cases decides with
    | noImage imagesEq =>
        exact .inl ⟨rfl, groups, by rw [argumentsEq, List.append_nil], imagesEq⟩
    | fault offends => exact .inr ⟨groups, rest, argumentsEq, single, offends⟩
  · rintro (⟨rfl, groups, argumentsEq, imagesEq⟩ | ⟨groups, rest, argumentsEq, single, offends⟩)
    · have single : (images groups).length ≤ 1 := by simp [imagesEq]
      exact ⟨groups, [], by rw [argumentsEq, List.append_nil], single, .noImage imagesEq⟩
    · exact ⟨groups, rest, argumentsEq, single, .fault offends⟩

end Answers

/-- Arguments are answered by their groups, in whatever order these stand: a run is
started for groups with one code image, help is given where a request for it follows
faultless groups, and the error is that of the first argument that is at fault, or of
the missing image. -/
theorem arguments_are_groups :
    (∀ (arguments : List String) (path : String) (settings : Settings),
      parse arguments = .ok (.run path settings) ↔
        ∃ groups, arguments = written groups ∧ images groups = [path] ∧
          settings = settingsOf groups) ∧
    (∀ arguments : List String, parse arguments = .ok .help ↔
      ∃ groups text rest, arguments = written groups ++ text :: rest ∧
        (text = "-h" ∨ text = "--help") ∧ (images groups).length ≤ 1) ∧
    (∀ (arguments : List String) (error : ArgumentError), parse arguments = .error error ↔
      (error = .noImage ∧ ∃ groups, arguments = written groups ∧ images groups = []) ∨
      ∃ groups rest, arguments = written groups ++ rest ∧ (images groups).length ≤ 1 ∧
        Offends (images groups) rest error) ∧
    ∀ groups reordered : List Group, Reorders groups reordered →
      parse (written reordered) = parse (written groups) :=
  ⟨parse_eq_run_iff, parse_eq_help_iff, parse_eq_error_iff,
    fun _ _ reorders => reorders.parse_eq⟩

/-- An entry that is given twice, and a data file whose name spells a switch, around the
code image; then a request for help in front of an option that is unknown. -/
theorem arguments_are_groups_around_image :
    parse ["prog.bin", "--entry", "7", "--data", "--resync", "--entry", "0x80"] =
      parse ["--entry", "7", "prog.bin", "--entry", "0x80", "--data", "--resync"] ∧
    parse ["--entry", "7", "prog.bin", "--entry", "0x80", "--data", "--resync"] =
      .ok (.run "prog.bin" { dataPath := some "--resync", entry := 0x80 }) ∧
    parse ["prog.bin", "--help", "--fast"] = .ok .help := by
  obtain ⟨runs, helps, _, reorders⟩ := arguments_are_groups
  have firstAccepted : NumberOption.entry.Accepts "7" 7 := ⟨writes_toString 7, by decide⟩
  have secondAccepted : NumberOption.entry.Accepts "0x80" 0x80 :=
    ⟨writes_hexadecimal 1 0x80, by decide⟩
  let first : Group := .number .entry "7" 7 firstAccepted
  let second : Group := .number .entry "0x80" 0x80 secondAccepted
  let image : Group := .codeFile "prog.bin" (by decide)
  let data : Group := .dataFile "--resync"
  refine ⟨reorders [first, image, second, data] [image, first, data, second] ⟨?_, ?_⟩, ?_, ?_⟩
  · exact (List.Perm.swap first image _).trans (((List.Perm.swap second data []).cons _).cons _)
  · intro name
    by_cases isEntry : NumberOption.entry.name = name
    · subst isEntry
      rfl
    · by_cases isData : dataFileName = name
      · subst isData
        rfl
      · simp [first, second, image, data, Group.name?, isEntry, isData]
  · exact (runs _ _ _).mpr ⟨[first, image, second, data], rfl, rfl, rfl⟩
  · exact (helps _).mpr ⟨[image], "--help", ["--fast"], rfl, .inr rfl, by decide⟩

end Aap.CommandLine
