import Mathlib.Data.List.Chain
import SchemaGraft.Proofs.Printing.Definitions
import SchemaGraft.Proofs.Reading.Documents

/-!
# Reading printed documents

**Main result.** Printed definitions, one after the other, are read without an error, and each of
them is read as what it is (`Document.parse_print`). The one thing that can go wrong is that an
object type without interfaces, directive applications and fields stands in front of a type without
a description: the word that begins the next line is then taken for a part of the object type.
-/

set_option autoImplicit false

namespace SchemaGraft

/-! ## Printed definitions -/

/-- A definition of those that the text of a schema consists of. -/
inductive PrintedDefinition where
  | roots (given : RootOperations)
  | directive (given : Node DirectiveDefinition)
  | type (given : SchemaType)

namespace PrintedDefinition

/-- The text of a definition. -/
def text : PrintedDefinition → String
  | roots given => Schema.printRoots given
  | directive given => Schema.printDirectiveDefinition given
  | type given => Schema.printType given

/-- What a text defines. -/
def toDefinition : PrintedDefinition → Definition
  | roots _ => .unrelated ⟨.built 0 (.type ""), none, .schema⟩
  | directive given => .directive (given.map .asPrinted)
  | type given => .type given.toDefinition

/-- The description in front of a definition. -/
def description : PrintedDefinition → Option String
  | roots _ => none
  | directive given => given.value.description
  | type given => given.description

/-- The word that begins a definition behind its description. -/
def keyword : PrintedDefinition → String
  | roots _ => "schema"
  | directive _ => "directive"
  | type (.scalar _) => "scalar"
  | type (.object _) => "type"
  | type (.interface _) => "interface"
  | type (.union _) => "union"
  | type (.enum _) => "enum"
  | type (.inputObject _) => "input"

/-- A definition ends with the name of an object type. -/
def IsBareObject : PrintedDefinition → Prop
  | roots _ | directive _ => False
  | type given => given.IsBareObject

/-- A definition may stand in front of another one without running into it. -/
def MayPrecede (given next : PrintedDefinition) : Prop :=
  given.IsBareObject → next.description.isSome = true

/-- A definition can be written. -/
def IsWritable : PrintedDefinition → Prop
  | roots given => given.toList ≠ [] ∧ ∀ root ∈ given.toList, IsWord .name root.2.text
  | directive given => given.value.IsWritable
  | type given => given.toDefinition.IsWritable ∧ given.HasMembers

end PrintedDefinition

open SchemaGraft.Tree

namespace Grammar

open State Accepts

variable (file : FileId) (limit : Nat)

/-! ## Ways into a definition -/

/-- Behind the token at hand and the end of its line the token after it comes next. -/
theorem exists_following?_eq {state : State} {first second : String} {kind other : TokenKind}
    {follows follows' : List Char → Prop} {more : List Char} (spells : Spells first kind follows)
    (spells' : Spells second other follows') (follow : follows ('\n' :: (second.toList ++ more)))
    (follow' : follows' more)
    (stands : state.StandsBefore (first.toList ++ '\n' :: (second.toList ++ more))) :
    ∃ start, state.following? = some ⟨other, second, start⟩ := by
  obtain ⟨c, rest, spelled, scanned⟩ := spells.scanned
  obtain ⟨d, rest', spelled', scanned'⟩ := spells'.scanned
  obtain ⟨offset, before, clean, accepting, sees⟩ := stands
  rw [spelled, List.cons_append] at sees
  obtain ⟨further, same⟩ := exists_lexemesFrom_token (scanned _ follow) offset
  rw [same, List.drop_left, seek, spells.kept, Bool.and_false, if_neg Bool.false_ne_true] at sees
  have upcoming : state.upcoming = lexemesFrom none 0 further ('\n' :: (second.toList ++ more)) :=
    sees.upcoming
  have visible := isPassedOver_of_scan (scanned' more follow') spells'.kept
  rw [isPassedOver, Bool.or_eq_false_iff] at visible
  obtain ⟨_, behind⟩ := exists_lexemesFrom_token (scanned' more follow') (further + '\n'.utf8Size)
  refine ⟨further + '\n'.utf8Size, ?_⟩
  rw [following?, upcoming, lexemesFrom_blank rfl, spelled', List.cons_append,
    List.takeWhile_cons_of_neg (by simp [visible.1]), List.length_nil, behind, List.take_left,
    ← spelled', String.ofList_toList]
  have kept : (other == .whitespace || other == .comment) = false := by
    have kept := spells'.kept
    cases other <;> first | rfl | cases kept
  simp [firstVisible?, kept]

/-- The word behind the description, if there is one, decides how a definition is read. -/
theorem accepts_documentItem {word : String} (valid : Name.IsValid word) {production : Production}
    (known : definition? limit word = some production) (described : Option String)
    {rest : List Char} {follows : List Char → Prop} {holds : List Tree → Prop}
    (accepts : Accepts (describedBy (Schema.descriptionLiteral "") [] ['\n'] described ++
      (word.toList ++ ' ' :: rest)) follows production holds) :
    Accepts (describedBy (Schema.descriptionLiteral "") [] ['\n'] described ++
      (word.toList ++ ' ' :: rest)) follows (documentItem limit) holds := by
  have spells := (isWord_of_isValid valid).spells rfl
  have chosen : definition limit word = production := by rw [definition, known, Option.getD_some]
  refine accepts.congr (yields_documentItem .builtIn limit).toIsSteady
    fun state more _ stands => ?_
  rw [List.append_assoc, List.append_assoc, List.cons_append] at stands
  have gap := (ends_of_isPassedOver (c := ' ') rfl (rest ++ more)).word
  cases described with
  | none =>
      obtain ⟨start, current⟩ := (stands.hasToken (spells.shows gap)).current
      simp [documentItem, current, chosen]
  | some text =>
      have quoted := writesStrings_definition text
      have line : ∀ more : List Char, ('\n' :: more).head? ≠ some '"' := by simp
      rw [describedBy, Option.elim_some, List.nil_append, List.append_assoc] at stands
      obtain ⟨start, current⟩ := (stands.hasToken (quoted.shows (line _))).current
      obtain ⟨_, follows⟩ := exists_following?_eq quoted spells (line _) gap stands
      simp [documentItem, current, follows, chosen]

/-! ## Definitions of a document -/

/-- What may follow a definition: nothing that could still be one of its parts. -/
def EndsPrinted (given : PrintedDefinition) (more : List Char) : Prop :=
  EndsDefinition more ∧ (given.IsBareObject → Offers (fun kind _ => kind ≠ .name) ('\n' :: more))

/-- Trees stand for what a text defines, places aside. -/
abbrev PrintedAgain (given : PrintedDefinition) : List Tree → Prop :=
  Again (ReadsDefinition file) Definition.bare given.toDefinition.bare

/-- Behind the description of a type comes the word that says what it is. -/
theorem exists_toList_printTypeBody_eq (given : SchemaType) :
    ∃ rest, (Schema.printTypeBody given).toList =
      (PrintedDefinition.type given).keyword.toList ++ ' ' :: rest := by
  cases given with
  | object type | interface type => exact ⟨_, toList_printObjectLike _ _⟩
  | scalar type | union type | enum type | inputObject type =>
      simp [Schema.printTypeBody, PrintedDefinition.keyword]

/-- A text begins with a description or the word that says what is defined. -/
theorem exists_toList_text_eq (given : PrintedDefinition) :
    ∃ rest, given.text.toList =
      describedBy (Schema.descriptionLiteral "") [] ['\n'] given.description ++
        (given.keyword.toList ++ ' ' :: rest) := by
  cases given with
  | roots given =>
      have text := toList_printRoots given
      rw [List.nil_append] at text
      exact ⟨_, text⟩
  | directive given =>
      have text := toList_printDirectiveDefinition given
      rw [List.nil_append] at text
      exact ⟨_, text⟩
  | type given =>
      obtain ⟨rest, body⟩ := exists_toList_printTypeBody_eq given
      have printed := toList_printDescription given.description ""
      refine ⟨rest, ?_⟩
      rw [PrintedDefinition.text, Schema.printType, String.toList_append, body]
      exact congrArg (· ++ _) printed

theorem isValid_keyword (given : PrintedDefinition) : Name.IsValid given.keyword := by
  rcases given with _ | _ | (_ | _ | _ | _ | _ | _) <;> rw [PrintedDefinition.keyword] <;> decide

theorem keyword_ne_implements (given : PrintedDefinition) : given.keyword ≠ "implements" := by
  rcases given with _ | _ | (_ | _ | _ | _ | _ | _) <;> rw [PrintedDefinition.keyword] <;> decide

theorem accepts_definitionText (given : PrintedDefinition) {production : Production}
    (known : definition? limit given.keyword = some production)
    {follows : List Char → Prop} {holds : List Tree → Prop}
    (accepts : Accepts given.text.toList follows production holds) :
    Accepts given.text.toList follows (documentItem limit) holds := by
  obtain ⟨rest, text⟩ := exists_toList_text_eq given
  rw [text] at accepts ⊢
  exact accepts_documentItem limit (isValid_keyword given) known given.description accepts

theorem accepts_typeText {given : SchemaType} {production : Production}
    (known : definition? limit (PrintedDefinition.type given).keyword = some production)
    {follows : List Char → Prop}
    (accepts : Accepts (Schema.printType given).toList follows production (TypeAgain file given))
    (narrower : ∀ more, EndsPrinted (.type given) more → follows more) :
    Accepts (Schema.printType given).toList (EndsPrinted (.type given)) (documentItem limit)
      (PrintedAgain file (.type given)) := by
  have item : Accepts (PrintedDefinition.type given).text.toList follows (documentItem limit)
      (TypeAgain file given) := accepts_definitionText limit (.type given) known accepts
  refine (item.narrow narrower).mono ?_
  rintro trees ⟨tree, again, rfl, reads, same⟩
  exact ⟨tree, .type again, rfl, reads, congrArg Definition.type same⟩

/-- **A printed definition is read as what it is.** -/
theorem accepts_text {given : PrintedDefinition} (writable : given.IsWritable) :
    Accepts given.text.toList (EndsPrinted given) (documentItem limit)
      (PrintedAgain file given) := by
  cases given with
  | roots given =>
      exact (accepts_definitionText limit (.roots given) rfl
        (accepts_schemaDefinition file limit writable.1 writable.2)).narrow fun _ follow => follow.1
  | directive given =>
      exact (accepts_definitionText limit (.directive given) rfl
        (accepts_directiveDefinition file limit writable)).narrow fun _ follow => follow.1
  | type given =>
      obtain ⟨writable, some⟩ := writable
      cases given with
      | scalar given =>
          exact accepts_typeText file limit rfl (accepts_scalarDefinition file limit writable)
            fun _ follow => follow.1
      | object given =>
          exact accepts_typeText file limit rfl (accepts_objectDefinition file limit writable)
            fun _ follow => follow
      | interface given =>
          exact accepts_typeText file limit rfl (accepts_interfaceDefinition file limit writable)
            fun _ follow => follow.1
      | union given =>
          exact accepts_typeText file limit rfl (accepts_unionDefinition file limit writable)
            fun _ follow => follow.1
      | enum given =>
          exact accepts_typeText file limit rfl (accepts_enumDefinition file limit some writable)
            fun _ follow => follow.1
      | inputObject given =>
          exact accepts_typeText file limit rfl
            (accepts_inputObjectDefinition file limit some writable) fun _ follow => follow.1

/-- A text shows its description or the word that says what is defined. -/
theorem offers_text (given : PrintedDefinition) (more : List Char) :
    Offers (fun kind text => (kind = .name ∨ kind = .string) ∧ text ≠ "implements" ∧
      (given.description.isSome = true → kind = .string)) (given.text.toList ++ more) := by
  obtain ⟨rest, text⟩ := exists_toList_text_eq given
  rw [text, List.append_assoc, List.append_assoc]
  cases description : given.description with
  | none =>
      exact offers_of_spells ((isWord_of_isValid (isValid_keyword given)).spells rfl)
        (ends_of_isPassedOver rfl _).word ⟨.inl rfl, keyword_ne_implements given, by simp⟩
  | some sentence =>
      have quoted : Schema.descriptionLiteral "" sentence ≠ "implements" := by
        intro same
        obtain ⟨inside, first⟩ := Schema.exists_toList_descriptionLiteral "" sentence
        rw [same] at first
        have head := congrArg List.head? first
        rw [List.head?_cons] at head
        exact absurd head (by decide)
      rw [describedBy, Option.elim_some, List.nil_append, List.append_assoc]
      exact offers_of_spells (writesStrings_definition sentence) (ends_of_isPassedOver rfl _).quote
        ⟨.inr rfl, quoted, fun _ => rfl⟩

theorem isBeforeEnd_of_hasToken {state : State} {kind : TokenKind} {text : String}
    (has : state.HasToken kind text) : isBeforeEnd state = (kind != .endOfInput) := by
  rw [isBeforeEnd, has.isSome_current, has.isAt_eq, Bool.true_and]
  rfl

theorem endsPrinted_nil (given : PrintedDefinition) : EndsPrinted given [] := by
  have shows : Shows [] .endOfInput "" := .endOfInput
  exact ⟨⟨_, _, shows, .inl rfl, by decide⟩, fun _ => ⟨_, _, .passed rfl shows, by decide⟩⟩

/-- A definition ends in front of the text of one that may follow it. -/
theorem endsPrinted_text {given next : PrintedDefinition} (precedes : given.MayPrecede next)
    (more : List Char) :
    EndsPrinted given ('\n' :: (next.text.toList ++ more)) := by
  have offers := (offers_text next more).passed (c := '\n') rfl
  refine ⟨offers.mono fun kind text here => ⟨.inr here.1, here.2.1⟩, fun bare => ?_⟩
  refine (offers.mono fun kind text here => ?_).passed rfl
  rw [here.2.2 (precedes bare)]
  decide

/-- What stands before the end of a document is taken along. -/
theorem accepts_flush {follows : List Char → Prop} : Accepts [] follows flush Nothing where
  toIsSteady := .flush
  reads state _ _ stands _ := ⟨stands.flush, ⟨[], told_flush state, rfl⟩,
    fun ⟨_, member, _⟩ => absurd member List.not_mem_nil⟩

section Items

variable {items : List PrintedDefinition} (writable : ∀ item ∈ items, item.IsWritable)
  (chain : items.IsChain PrintedDefinition.MayPrecede)
include writable chain

theorem isSeries_items : IsSeries isBeforeEnd (documentItem limit) ['\n']
    (fun item => item.text.toList) EndsPrinted (PrintedAgain file) items (· = []) where
  steady := (yields_documentItem file limit).toIsSteady
  each item member := accepts_text file limit (writable item member)
  shown item member := by
    have offers := offers_text item []
    rw [List.append_nil] at offers
    exact isShown_of_offers offers (by simp)
  passed := .of_all rfl
  goes_on item member := meeting_of_offers
    (fun more _ => offers_text item more)
    fun state kind text has here => by
      rw [isBeforeEnd_of_hasToken has]
      rcases here.1 with rfl | rfl <;> rfl
  ends := by
    rintro state more rfl stands
    exact isBeforeEnd_of_hasToken (stands.hasToken .endOfInput)
  apart := by
    rintro item rest suffix more rfl
    have here := chain.suffix suffix
    cases rest with
    | nil => exact endsPrinted_nil item
    | cons next rest =>
        rw [List.map_cons, List.flatMap_cons, List.append_nil, List.append_assoc]
        exact endsPrinted_text (List.isChain_cons_cons.1 here).1 _

theorem accepts_items : Accepts (['\n'].intercalate (items.map (·.text.toList))) (· = [])
    (sequence [repeatWhile isBeforeEnd (documentItem limit), flush])
    (Each (PrintedAgain file) items) := by
  have flushed : Accepts [] (· = []) flush Nothing := accepts_flush
  have items := (of_repeatWhile (isSeries_items file limit writable chain)).andThen
    flushed fun more follow => follow
  rw [List.append_nil] at items
  refine items.mono ?_
  rintro trees ⟨front, _, rfl, each, rfl⟩
  rwa [List.append_nil]

end Items

/-- Reading begins in front of the whole text. -/
theorem standsBefore_opened_start (text : String) :
    (State.start limit (lexemes none text)).opened.StandsBefore text.toList := by
  have emptied : ({ (State.start limit (lexemes none text)).flush with children := [] } :
      State).SeesAs (.start limit (lexemes none text)) :=
    ⟨current_flush _, upcoming_flush _, faults_flush _, accepting_flush _⟩
  have sees := seesAs_skip emptied
  rw [State.start, skip_seek] at sees
  exact ⟨0, _, rfl, rfl, sees⟩

theorem depthLimit_seek (passing : Bool) (state : State) (lexemes : List Lexeme) :
    (seek passing state lexemes).depthLimit = state.depthLimit := by
  fun_induction seek passing state lexemes with
  | case1 | case4 => rfl
  | case2 state fault rest ih | case3 state token rest skipped ih => exact ih

theorem depthLimit_opened_start (lexemes : List Lexeme) :
    (State.start limit lexemes).opened.depthLimit = limit := by
  rw [(leadsTo_opened _).depthLimit_eq, State.start, depthLimit_seek]

/-- What a production accepts is read without a problem where it is a whole text, and is the content
of one branch. -/
theorem branch_reads {kind : TreeKind} {part : Production} {text : String}
    {holds : List Tree → Prop} (accepts : Accepts text.toList (· = []) part holds)
    (within : (branch kind part (.start limit (lexemes none text))).deepest ≤ limit) :
    (branch kind part (.start limit (lexemes none text))).faults = [] ∧
      ∃ start stop children others,
        (branch kind part (.start limit (lexemes none text))).children =
          .branch kind start stop children :: others ∧ holds (telling children) := by
  have stands := standsBefore_opened_start limit text
  have opened := depthLimit_opened_start limit (lexemes none text)
  rw [← List.append_nil text.toList] at stands
  generalize State.start limit (lexemes none text) = start at *
  have depthLimit := (accepts.leadsTo start.opened).depthLimit_eq.trans opened
  obtain ⟨ended, ⟨trees, told, found⟩, _⟩ := accepts.reads _ [] rfl stands (by
    rw [IsWithinLimit, depthLimit]
    exact within)
  have content : telling (part start.opened).children.reverse = trees := by
    rw [telling_reverse, ← State.told, told, told_opened, List.append_nil, List.reverse_reverse]
  rw [← content] at found
  exact ⟨(ended.hasToken .endOfInput).clean, _, _, _, _, rfl, found⟩

/-- A document of printed definitions is read without a problem, and what its tree tells stands for
these definitions. -/
theorem document_reads {items : List PrintedDefinition} (writable : ∀ item ∈ items, item.IsWritable)
    (chain : items.IsChain PrintedDefinition.MayPrecede) {text : String}
    (printed : text.toList = ['\n'].intercalate (items.map (·.text.toList)))
    (within : (document limit (.start limit (lexemes none text))).deepest ≤ limit) :
    (document limit (.start limit (lexemes none text))).faults = [] ∧
      ∃ start stop children definitions others,
        (document limit (.start limit (lexemes none text))).children =
          .branch .document start stop children :: others ∧
        ReadsAll (ReadsDefinition file) (telling children) definitions ∧
        definitions.map Definition.bare = items.map (·.toDefinition.bare) := by
  have accepts := accepts_items file limit writable chain
  rw [← printed] at accepts
  obtain ⟨clean, start, stop, children, others, root, each⟩ := branch_reads limit accepts within
  have empty : ReadsAll (ReadsDefinition file) [] [] := .nil
  obtain ⟨definitions, all, same⟩ := each.exists_reads empty fun _ _ _ _ => .cons
  exact ⟨clean, start, stop, children, definitions, others, root, all, same⟩

end Grammar

/-! ## Limits that are not reached -/

/-- No limit was reached in reading a text. -/
structure ParsedDocument.IsWithin (limits : ReadingLimits) (parsed : ParsedDocument) : Prop where
  depth : parsed.depthReached ≤ limits.depth
  tokens : ∀ count ∈ limits.tokens, parsed.tokensReached ≤ count

/-- The limits that hold if none are given do not restrict lexemes. -/
theorem ParsedDocument.isWithin_default {parsed : ParsedDocument}
    (depth : parsed.depthReached ≤ ({} : ReadingLimits).depth) : parsed.IsWithin {} where
  depth := depth
  tokens := fun _ limited => absurd limited (Option.not_mem_none _)

/-- A limit that is as high as the number of lexemes does not change them. -/
theorem lexemesFrom_of_length_le {count skip offset : Nat} {chars : List Char}
    (enough : (lexemesFrom (some count) skip offset chars).length ≤ count) :
    lexemesFrom (some count) skip offset chars = lexemesFrom none skip offset chars := by
  induction chars generalizing count skip offset with
  | nil =>
      cases count with
      | zero => exact absurd enough (by simp [lexemesFrom])
      | succ count => rfl
  | cons c rest ih =>
      cases skip with
      | succ skip => exact ih enough
      | zero =>
          cases count with
          | zero => exact absurd enough (by simp [lexemesFrom])
          | succ count =>
              rw [lexemesFrom_cons (by simp)] at enough ⊢
              rw [lexemesFrom_cons (by simp)]
              congr 1
              exact ih (Nat.le_of_succ_le_succ enough)

theorem lexemes_eq_none {limit : Option Nat} {text : String}
    (enough : ∀ count ∈ limit, (lexemes limit text).length ≤ count) :
    lexemes limit text = lexemes none text := by
  cases limit with
  | none => rfl
  | some count => exact lexemesFrom_of_length_le (enough count rfl)

/-! ## Whole documents -/

open Grammar State

/-- **Printed definitions are read as what they are**, one after the other and without an error, as
long as no limit is reached. -/
theorem Document.parse_print {limits : ReadingLimits} {file : FileId} {source : SourceFile}
    {items : List PrintedDefinition} (writable : ∀ item ∈ items, item.IsWritable)
    (chain : items.IsChain PrintedDefinition.MayPrecede)
    (text : source.text = "\n".intercalate (items.map (·.text)))
    (within : (Document.parse limits file source).IsWithin limits) :
    (Document.parse limits file source).errors = [] ∧
      (Document.parse limits file source).document.definitions.map Definition.bare =
        items.map (·.toDefinition.bare) := by
  have read : SyntaxTree.ofText limits source.text =
      ⟨(document limits.depth (.start limits.depth (lexemes none source.text))).children.headD
          (.branch .document 0 0 []),
        (document limits.depth (.start limits.depth (lexemes none source.text))).faults.reverse,
        (lexemes limits.tokens source.text).length,
        (document limits.depth (.start limits.depth (lexemes none source.text))).deepest⟩ := by
    rw [SyntaxTree.ofText, lexemes_eq_none within.tokens]
  have depth := within.depth
  rw [parse, read] at depth ⊢
  dsimp only at depth
  have printed : source.text.toList = ['\n'].intercalate (items.map (·.text.toList)) := by
    rw [text, String.toList_intercalate, List.map_map]
    rfl
  obtain ⟨clean, start, stop, children, definitions, others, root, all, same⟩ :=
    document_reads file limits.depth writable chain printed depth
  rw [clean, root, List.headD_cons, all.definitions_eq]
  exact ⟨rfl, same⟩

end SchemaGraft
