import Mathlib.Data.List.Basic
import SqlSelect.Expr
import SqlSelect.Proofs.Binding
import SqlSelect.Proofs.Writing

/-!
# The keys of a JSON object

The keys are the only strings of a caller that are written into the text as string
literals. A reader of literals gets each of them back whatever it consists of, and knows
where it ends. So the texts of the values and the text of the whole object together
determine the keys.
-/

namespace SqlSelect

namespace Text

/-! ## Reading string literals -/

/-- Reads a string literal from behind its opening quote, and gives what is left behind it. Two
quotes stand for one, and the first quote that is not doubled closes the literal. -/
def literalBody? : List Char → Option (List Char × List Char)
  | [] => none
  | '\x27' :: '\x27' :: rest => (literalBody? rest).map (Prod.map ('\x27' :: ·) id)
  | '\x27' :: rest => some ([], rest)
  | c :: rest => (literalBody? rest).map (Prod.map (c :: ·) id)

def literal? : List Char → Option (List Char × List Char)
  | '\x27' :: rest => literalBody? rest
  | _ => none

/-- Reads one key for each text of a value. The first key stands behind the lead, and each other
key behind a comma. -/
def memberKeys? : String → List String → List Char → Option (List String)
  | _, [], _ => some []
  | lead, text :: texts, cs => do
    let literal ← cs.dropPrefix? lead.toList
    let (key, rest) ← literal? literal
    let later ← rest.dropPrefix? (", " ++ text).toList
    let keys ← memberKeys? ", " texts later
    return String.ofList key :: keys

/-- A quote behind the literal would be taken for the second half of a doubled one. -/
theorem literalBody?_doubleQuotes (cs : List Char) {rest : List Char}
    (hrest : rest.head? ≠ some '\x27') :
    literalBody? (doubleQuotes cs ++ '\x27' :: rest) = some (cs, rest) := by
  induction cs with
  | nil =>
    rw [doubleQuotes_nil, List.nil_append]
    cases rest with
    | nil => rfl
    | cons c rest =>
      have hc : c ≠ '\x27' := fun h ↦ hrest (congrArg some h)
      rw [literalBody?]
      rintro _ ⟨⟩
      exact hc rfl
  | cons c cs ih =>
    by_cases hc : c = '\x27'
    · subst hc
      have hdouble : doubleQuotes ('\x27' :: cs) = '\x27' :: '\x27' :: doubleQuotes cs := rfl
      rw [hdouble, List.cons_append, List.cons_append, literalBody?, ih]
      rfl
    · have hsingle : doubleQuotes (c :: cs) = c :: doubleQuotes cs := by
        simp [doubleQuotes, hc]
      rw [hsingle, List.cons_append, literalBody?, ih]
      · rfl
      · exact fun _ h _ ↦ hc h
      · exact hc

theorem literal?_quoted (key : String) {rest : List Char} (hrest : rest.head? ≠ some '\x27') :
    literal? ((quoted key).toList ++ rest) = some (key.toList, rest) := by
  rw [toList_quoted, List.cons_append, List.append_assoc, literal?]
  exact literalBody?_doubleQuotes key.toList hrest

theorem memberKeys?_cons (lead key text : String) (texts : List String) (rest : List Char) :
    memberKeys? lead (text :: texts) ((lead ++ Layout.member key text).toList ++ rest) =
      (memberKeys? ", " texts rest).map (key :: ·) := by
  have hcomma : ((", " ++ text).toList ++ rest).head? ≠ some '\x27' := by
    simp
  have htext : (lead ++ Layout.member key text).toList ++ rest =
      lead.toList ++ ((quoted key).toList ++ ((", " ++ text).toList ++ rest)) := by
    simp [Layout.member]
  rw [htext, memberKeys?, List.dropPrefix?_append_of_beq _ BEq.rfl]
  simp only [Option.bind_eq_bind, Option.bind_some, literal?_quoted key hcomma,
    List.dropPrefix?_append_of_beq _ BEq.rfl, String.ofList_toList]
  cases memberKeys? ", " texts rest <;> rfl

/-- The text of a first member and of others behind it, each after a comma. -/
theorem memberKeys?_members (lead key text : String) (others : List (String × String))
    (rest : List Char) :
    memberKeys? lead (text :: others.map Prod.snd)
        ((lead ++ Layout.member key text ++
          String.join
            (others.map fun other ↦ ", " ++ Layout.member other.1 other.2)).toList ++ rest) =
      some (key :: others.map Prod.fst) := by
  induction others generalizing lead key text with
  | nil =>
    rw [List.map_nil, List.map_nil, String.join_nil, String.append_empty, memberKeys?_cons]
    rfl
  | cons other others ih =>
    rw [List.map_cons, List.map_cons, String.join_cons, String.toList_append, List.append_assoc,
      memberKeys?_cons, ih]
    rfl

end Text

/-- Members of which the keys and the texts of the values are known. -/
def Layout.members (pairs : List (String × String)) : List String :=
  pairs.map fun pair ↦ Layout.member pair.1 pair.2

namespace Node

variable {style : Style}

/-! ## Rendering the members -/

/-- A member adds its key to the text of its value. -/
theorem render_members (members : List (String × Field)) :
    render style (ofList (members.map fun one ↦ member one.1 one.2)) =
      (fun texts ↦ Layout.members ((members.map Prod.fst).zip texts)) <$>
        render style (ofList (members.map Prod.snd)) := by
  induction members with
  | nil => rfl
  | cons one members ih =>
    simp only [List.map_cons, ofList, render, ih, map_bind, bind_assoc, pure_bind, map_pure,
      bind_map_left]
    rfl

theorem render_jsonObject (members : List (String × Field)) :
    render style (Expr.jsonObject members) =
      (fun texts ↦ Layout.call style.jsonObjectFunction
        (Layout.members ((members.map Prod.fst).zip texts))) <$>
        render style (ofList (members.map Prod.snd)) := by
  rw [Expr.jsonObject, render, render_members, bind_map_left]
  rfl

/-- Each node of a sequence has a text. -/
theorem length_of_render {category : Category} : ∀ {nodes : Node (.many category)}
    {params after : Params} {texts : List String},
    render style nodes params = .ok texts after → texts.length = nodes.toList.length
  | nil, _, _, _, h => by
    cases h
    rfl
  | cons first rest, _, _, _, h => by
    simp only [render, bind_eq_ok_iff] at h
    obtain ⟨_, _, -, texts, _, hrest, ⟨⟩⟩ := h
    simp [length_of_render hrest]

end Node

/-! ## Objects -/

/-- A key and the text of its value are separated as two members are. -/
theorem intercalate_members (pairs : List (String × String)) :
    ", ".intercalate (Layout.members pairs) =
      ", ".intercalate (pairs.flatMap fun pair ↦ [Text.quoted pair.1, pair.2]) := by
  have hlater : ∀ pairs : List (String × String),
      String.join ((Layout.members pairs).map (", " ++ ·)) =
        String.join ((pairs.flatMap fun pair ↦ [Text.quoted pair.1, pair.2]).map (", " ++ ·)) := by
    intro pairs
    induction pairs with
    | nil => rfl
    | cons pair pairs ih =>
      simp_all [Layout.members, Layout.member, String.append_assoc]
  cases pairs with
  | nil => rfl
  | cons pair pairs =>
    rw [Layout.members, List.map_cons, Reference.intercalate_cons, ← Layout.members, hlater,
      List.flatMap_cons, List.cons_append, Reference.intercalate_cons]
    simp [Layout.member, String.append_assoc]

theorem intercalate_append_cons (separator item : String) (before after : List String) :
    separator.intercalate (before ++ item :: after) =
      String.join (before.map (· ++ separator)) ++ item ++
        String.join (after.map (separator ++ ·)) := by
  induction before with
  | nil => simp [Reference.intercalate_cons]
  | cons first before ih =>
    have hrest : before ++ item :: after ≠ [] := by simp
    obtain ⟨second, rest, hcons⟩ := List.exists_cons_of_ne_nil hrest
    rw [List.cons_append, hcons, String.intercalate_cons_cons, ← hcons, ih, List.map_cons,
      String.join_cons]
    simp [String.append_assoc]

/-- The text of an object before the key that follows the members given. -/
def Layout.beforeKey (function : String) (members : List (String × String)) : String :=
  function ++ "(" ++ String.join (members.map fun one ↦ Layout.member one.1 one.2 ++ ", ")

theorem exists_behind_member (function : String) (earlier : List (String × String))
    (key text : String) (later : List (String × String)) :
    ∃ rest, Layout.call function (Layout.members (earlier ++ (key, text) :: later)) =
      Layout.beforeKey function earlier ++ Text.quoted key ++ ", " ++ text ++ rest := by
  refine ⟨String.join ((Layout.members later).map (", " ++ ·)) ++ ")", ?_⟩
  rw [Layout.members, List.map_append, List.map_cons, Layout.call, intercalate_append_cons,
    List.map_map, ← Layout.members]
  simp [Layout.beforeKey, Layout.member, Layout.parenthesized, String.append_assoc,
    Function.comp_def]

theorem memberKeys?_call (function : String) (pairs : List (String × String)) :
    Text.memberKeys? (function ++ "(") (pairs.map Prod.snd)
      (Layout.call function (Layout.members pairs)).toList = some (pairs.map Prod.fst) := by
  cases pairs with
  | nil => rfl
  | cons first others =>
    have hkeys := Text.memberKeys?_members (function ++ "(") first.1 first.2 others [')']
    rw [List.map_cons, List.map_cons, ← hkeys, Layout.call, Layout.members, List.map_cons,
      Reference.intercalate_cons, List.map_map]
    simp [Layout.parenthesized, Function.comp_def]

/-- An object has a text if its values have. -/
theorem render_object_of_values {style : Style} {members : List (String × Field)}
    {params after : Params} {texts : List String}
    (hvalues : Node.render style (.ofList (members.map Prod.snd)) params = .ok texts after) :
    Node.render style (Expr.jsonObject members) params =
      .ok (Layout.call style.jsonObjectFunction
        (Layout.members ((members.map Prod.fst).zip texts))) after := by
  rw [Node.render_jsonObject]
  exact map_eq_ok_iff.mpr ⟨texts, hvalues, rfl⟩

theorem memberKeys?_of_values {style : Style} {members : List (String × Field)}
    {params after : Params} {texts : List String}
    (hvalues : Node.render style (.ofList (members.map Prod.snd)) params = .ok texts after)
    (function : String) :
    Text.memberKeys? (function ++ "(") texts
        (Layout.call function (Layout.members ((members.map Prod.fst).zip texts))).toList =
      some (members.map Prod.fst) := by
  have hlength : texts.length = (members.map Prod.fst).length := by
    simpa using Node.length_of_render hvalues
  have hkeys := memberKeys?_call function ((members.map Prod.fst).zip texts)
  rwa [List.map_fst_zip (Nat.le_of_eq hlength.symm),
    List.map_snd_zip (Nat.le_of_eq hlength)] at hkeys

/-- The text of an object whose values have the texts is made up of its members, and a reader of
string literals that is put before a key gives the key and stops behind it. Objects of one text
whose values have the same texts have the same keys. -/
theorem object_keys_can_be_read_back (style : Style) (members : List (String × Field))
    {params after : Params} {texts : List String}
    (hvalues : (Node.render style (.ofList (members.map Prod.snd))).run params = .ok texts after) :
    let keys := members.map Prod.fst
    let function := style.jsonObjectFunction
    ∃ output, (Node.render style (Expr.jsonObject members)).run params = .ok output after ∧
      output = function ++ "(" ++ ", ".intercalate
        ((keys.zip texts).flatMap fun pair ↦ [Text.quoted pair.1, pair.2]) ++ ")" ∧
      (∀ earlier key text later, keys.zip texts = earlier ++ (key, text) :: later →
        ∃ rest, output =
            Layout.beforeKey function earlier ++ Text.quoted key ++ ", " ++ text ++ rest ∧
          Text.literal? (Text.quoted key ++ ", " ++ text ++ rest).toList =
            some (key.toList, (", " ++ text ++ rest).toList)) ∧
      Text.memberKeys? (function ++ "(") texts output.toList = some keys ∧
      ∀ (others : List (String × Field)) (sink left : Params),
        (Node.render style (.ofList (others.map Prod.snd))).run sink = .ok texts left →
        (Node.render style (Expr.jsonObject others)).run sink = .ok output left →
        others.map Prod.fst = keys := by
  intro keys function
  have hkeys := memberKeys?_of_values hvalues function
  refine ⟨_, render_object_of_values hvalues, ?_, ?_, hkeys, ?_⟩
  · rw [← intercalate_members]
    simp only [Layout.call, Layout.parenthesized, String.append_assoc, keys, function]
  · intro earlier key text later hpairs
    obtain ⟨rest, hrest⟩ := exists_behind_member function earlier key text later
    have hcomma : (", " ++ text ++ rest).toList.head? ≠ some '\x27' := by
      simp
    refine ⟨rest, hpairs ▸ hrest, ?_⟩
    rw [← Text.literal?_quoted key hcomma]
    simp [String.append_assoc]
  · intro others sink left hothers hsame
    have hread := memberKeys?_of_values hothers function
    obtain ⟨houtput, -⟩ :=
      EStateM.Result.ok.inj ((render_object_of_values hothers).symm.trans hsame)
    rw [houtput, hkeys] at hread
    exact (Option.some.inj hread).symm

/-- Keys that hold quotes and separators, one of them twice, and a value that binds a literal. -/
theorem object_keys_can_be_read_back_among_quotes :
    let fallback : Field := .computed (Expr.coalesce [.inline (.name "a"), .literal (.int 7)])
    let members : List (String × Field) :=
      [("it\x27s", .name "u.id"), ("\x27\x27, ", fallback), ("it\x27s", .verbatim "\x27")]
    let texts := ["\x60u\x60.\x60id\x60", "COALESCE(\x60a\x60, $1)", "\x27"]
    let output := "JSON_OBJECT(\x27it\x27\x27s\x27, \x60u\x60.\x60id\x60, " ++
      "\x27\x27\x27\x27\x27, \x27, COALESCE(\x60a\x60, $1), \x27it\x27\x27s\x27, \x27)"
    let params := Params.empty .dollarNumbered
    (Node.render default (.ofList (members.map Prod.snd))).run params =
        .ok texts (params.append [.int 7]) ∧
      (Node.render default (Expr.jsonObject members)).run params =
        .ok output (params.append [.int 7]) ∧
      Text.memberKeys? "JSON_OBJECT(" texts output.toList =
        some ["it\x27s", "\x27\x27, ", "it\x27s"] := by
  intro fallback members texts output params
  have hvalues : (Node.render default (.ofList (members.map Prod.snd))).run
      (Params.empty .dollarNumbered) = .ok texts (params.append [.int 7]) := rfl
  obtain ⟨written, hrender, hwritten, -, hkeys, -⟩ :=
    object_keys_can_be_read_back default members hvalues
  have hsame : written = output := hwritten.trans (by decide)
  rw [hsame] at hrender hkeys
  exact ⟨hvalues, hrender, hkeys⟩

end SqlSelect
