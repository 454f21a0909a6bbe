import Mathlib.Data.List.DropRight
import SqlSelect.Dialect
import SqlSelect.Keyword.Conjunction
import SqlSelect.Keyword.JoinKind
import SqlSelect.Keyword.Operator
import SqlSelect.Keyword.OrderDirection

/-!
# Words and what they name

A vocabulary takes a word exactly if it is the spelling of one of its values, with the case
of ASCII letters set aside, and reports every other word as it was given. Only operators
are looked up without the blanks around them. What is left then is compared as any word
is, so neither another blank inside it nor a letter outside ASCII makes it the right one.
-/

namespace SqlSelect

namespace Text

/-! ## The case of letters -/

/-- Only the capital letters of ASCII are changed. -/
theorem toLower_cases (c : Char) :
    c.toLower = c ∨ 65 ≤ c.toNat ∧ c.toNat ≤ 90 ∧ c.toLower.toNat = c.toNat + 32 := by
  by_cases hupper : c.val ≥ 'A'.val ∧ c.val ≤ 'Z'.val
  · have hmin : 65 ≤ c.toNat := hupper.1
    have hmax : c.toNat ≤ 90 := hupper.2
    have hval : c.toLower.val = c.val + 32 := congrArg Char.val (dif_pos hupper)
    have hlt : c.val.toNat + (32 : UInt32).toNat < 2 ^ 32 := by
      change c.toNat + 32 < _
      omega
    refine .inr ⟨hmin, hmax, ?_⟩
    change c.toLower.val.toNat = c.val.toNat + 32
    rw [hval, UInt32.toNat_add, Nat.mod_eq_of_lt hlt]
    rfl
  · exact .inl (dif_neg hupper)

theorem toNat_lt_of_toLower {c : Char} (h : c.toLower.toNat < 128) : c.toNat < 128 := by
  rcases toLower_cases c with hc | ⟨-, hmax, -⟩
  · rwa [hc] at h
  · omega

/-- A character before the letters is its own only spelling. -/
theorem eq_of_toLower_eq {c d : Char} (hd : d.toNat < 65) (h : c.toLower = d.toLower) : c = d := by
  rcases toLower_cases d with hd' | ⟨hmin, -, -⟩
  · rw [hd'] at h
    rcases toLower_cases c with hc | ⟨hmin, -, hsum⟩
    · rw [← hc, h]
    · rw [h] at hsum
      omega
  · omega

theorem eq_of_map_toLower_eq {cs ds : List Char} (hds : ∀ d ∈ ds, d.toNat < 65)
    (h : cs.map Char.toLower = ds.map Char.toLower) : cs = ds := by
  induction ds generalizing cs with
  | nil => exact List.map_eq_nil_iff.mp h
  | cons d ds ih =>
    obtain ⟨c, cs, rfl, hc, hcs⟩ := List.map_eq_cons_iff.mp h
    rw [eq_of_toLower_eq (hds d List.mem_cons_self) hc,
      ih (fun d hd ↦ hds d (List.mem_cons_of_mem _ hd)) hcs]

/-- No letter of ASCII is a blank. -/
theorem isBlank_of_letter {c : Char} (hmin : 65 ≤ c.toNat) (hmax : c.toNat ≤ 122) :
    isBlank c = false := by
  have hcodes : ∀ code ∈ blankCodes, code < 65 ∨ 122 < code := by decide
  rw [Bool.eq_false_iff]
  intro hblank
  have hcode := hcodes c.toNat (List.contains_iff_mem.mp hblank)
  omega

@[simp] theorem isBlank_toLower (c : Char) : isBlank c.toLower = isBlank c := by
  rcases toLower_cases c with hc | ⟨hmin, hmax, hsum⟩
  · rw [hc]
  · rw [isBlank_of_letter hmin (by omega), isBlank_of_letter (by omega) (by omega)]

@[simp] theorem toList_toLower (word : String) :
    word.toLower.toList = word.toList.map Char.toLower :=
  String.toList_map

/-! ## Trimming -/

/-- The code points with the property White_Space, as ranges. -/
def whiteSpace : List (Nat × Nat) :=
  [(0x09, 0x0D), (0x20, 0x20), (0x85, 0x85), (0xA0, 0xA0), (0x1680, 0x1680), (0x2000, 0x200A),
    (0x2028, 0x2029), (0x202F, 0x202F), (0x205F, 0x205F), (0x3000, 0x3000)]

theorem isBlank_iff (c : Char) :
    isBlank c ↔ ∃ range ∈ whiteSpace, range.1 ≤ c.toNat ∧ c.toNat ≤ range.2 := by
  rw [isBlank, List.contains_iff_mem]
  simp only [blankCodes, whiteSpace, List.mem_cons, List.not_mem_nil, or_false, exists_eq_or_imp,
    exists_eq_left]
  omega

/-- Nothing but blanks, or nothing at all. -/
def Blank (text : String) : Prop :=
  ∀ c ∈ text.toList, isBlank c

instance (text : String) : Decidable (Blank text) :=
  List.decidableBAll (fun c ↦ isBlank c) text.toList

/-- The text is the core with blanks on both sides, and the core neither begins nor ends with a
blank. -/
def HasCore (text core : String) : Prop :=
  (∃ before after, Blank before ∧ Blank after ∧ text = before ++ core ++ after) ∧
    ∀ c, core.toList.head? = some c ∨ core.toList.getLast? = some c → isBlank c = false

theorem trimLeft_eq_self {cs : List Char} (h : ∀ c, cs.head? = some c → isBlank c = false) :
    trimLeft cs = cs := by
  cases cs with
  | nil => rfl
  | cons c cs => rw [trimLeft, List.dropWhile_cons_of_neg (by simp [h c rfl])]

theorem trimRight_eq_self {cs : List Char} (h : ∀ c, cs.getLast? = some c → isBlank c = false) :
    trimRight cs = cs := by
  rw [trimRight, trimLeft_eq_self, List.reverse_reverse]
  rwa [List.head?_reverse]

theorem head?_trimLeft {cs : List Char} {c : Char} (h : (trimLeft cs).head? = some c) :
    isBlank c = false := by
  have hhead := List.head?_dropWhile_not isBlank cs
  rw [trimLeft] at h
  rwa [h] at hhead

theorem getLast?_trimRight {cs : List Char} {c : Char} (h : (trimRight cs).getLast? = some c) :
    isBlank c = false := by
  rw [trimRight, List.getLast?_reverse] at h
  exact head?_trimLeft h

/-- What is taken away are blanks. -/
theorem exists_trimLeft (cs : List Char) :
    ∃ before : List Char, (∀ c ∈ before, isBlank c) ∧ cs = before ++ trimLeft cs :=
  ⟨cs.takeWhile isBlank, fun _ hc ↦ List.mem_takeWhile_imp hc,
    List.takeWhile_append_dropWhile.symm⟩

theorem exists_trimRight (cs : List Char) :
    ∃ after : List Char, (∀ c ∈ after, isBlank c) ∧ cs = trimRight cs ++ after :=
  ⟨cs.rtakeWhile isBlank, fun _ hc ↦ List.mem_rtakeWhile_imp hc,
    List.rdropWhile_append_rtakeWhile.symm⟩

theorem trimRight_append {cs after : List Char} (hafter : ∀ c ∈ after, isBlank c) :
    trimRight (cs ++ after) = trimRight cs := by
  rw [trimRight, trimRight, trimLeft, List.reverse_append, List.dropWhile_append_of_pos]
  · rfl
  · exact fun c hc ↦ hafter c (List.mem_reverse.mp hc)

/-- Blanks around a text do not count. -/
theorem trim_append {before after : String} (hbefore : Blank before) (hafter : Blank after)
    (text : String) : trim (before ++ text ++ after) = trim text := by
  have hleft : trimLeft (before.toList ++ (text.toList ++ after.toList)) =
      trimLeft (text.toList ++ after.toList) :=
    List.dropWhile_append_of_pos hbefore
  rw [← String.toList_inj, toList_trim, toList_trim, String.toList_append, String.toList_append,
    List.append_assoc, hleft, trimLeft, List.dropWhile_append]
  split
  · rename_i hempty
    rw [List.dropWhile_eq_nil_iff.mpr hafter, trimLeft, List.isEmpty_iff.mp hempty]
  · exact trimRight_append hafter

theorem hasCore_iff {text core : String} : HasCore text core ↔ core = trim text := by
  constructor
  · rintro ⟨⟨before, after, hbefore, hafter, rfl⟩, hends⟩
    have hleft : trimLeft core.toList = core.toList :=
      trimLeft_eq_self fun c hc ↦ hends c (.inl hc)
    have hright : trimRight core.toList = core.toList :=
      trimRight_eq_self fun c hc ↦ hends c (.inr hc)
    rw [trim_append hbefore hafter, ← String.toList_inj, toList_trim, hleft, hright]
  · rintro rfl
    obtain ⟨before, hbefore, htext⟩ := exists_trimLeft text.toList
    obtain ⟨after, hafter, hrest⟩ := exists_trimRight (trimLeft text.toList)
    refine ⟨⟨.ofList before, .ofList after, by simpa [Blank] using hbefore,
      by simpa [Blank] using hafter, ?_⟩, ?_⟩
    · rw [← String.toList_inj]
      simp [← hrest, ← htext]
    · intro c hc
      rw [toList_trim] at hc
      rcases hc with hc | hc
      · have hhead : (trimLeft text.toList).head? = some c := by
          rw [hrest, List.head?_append, hc]
          rfl
        exact head?_trimLeft hhead
      · exact getLast?_trimRight hc

theorem trimLeft_map_toLower (cs : List Char) :
    trimLeft (cs.map Char.toLower) = (trimLeft cs).map Char.toLower := by
  have hblank : isBlank ∘ Char.toLower = isBlank := funext isBlank_toLower
  rw [trimLeft, List.dropWhile_map, hblank]
  rfl

theorem toLower_trim (word : String) : (trim word).toLower = trim word.toLower := by
  rw [← String.toList_inj, toList_toLower, toList_trim, toList_trim, toList_toLower,
    trimLeft_map_toLower, trimRight, trimRight, ← List.map_reverse, trimLeft_map_toLower,
    List.map_reverse]

/-! ## Looking words up -/

/-- A word names the value beside it in a table where no word stands twice. -/
theorem lookup_eq_some_iff {α : Type} {spellings : List (String × α)}
    (hdistinct : (spellings.map Prod.fst).Nodup) (word : String) (value : α) :
    spellings.lookup word = some value ↔ (word, value) ∈ spellings := by
  rw [List.lookup_eq_some_iff]
  constructor
  · rintro ⟨before, after, rfl, -⟩
    exact List.mem_append_right before List.mem_cons_self
  · intro hmem
    obtain ⟨before, after, rfl⟩ := List.append_of_mem hmem
    refine ⟨before, after, rfl, fun entry hentry ↦ bne_iff_ne.mpr ?_⟩
    rw [List.map_append, List.nodup_append] at hdistinct
    exact (hdistinct.2.2 entry.1 (List.mem_map_of_mem hentry) word List.mem_cons_self).symm

/-- A table in which every value is spelled in one way. -/
theorem mem_spellings_iff {α : Type} {spellings : List (String × α)} {spell : α → String}
    (hspelled : ∀ entry ∈ spellings, entry.1 = spell entry.2)
    (hlisted : ∀ value, (spell value, value) ∈ spellings) (word : String) (value : α) :
    (word, value) ∈ spellings ↔ word = spell value := by
  constructor
  · exact hspelled (word, value)
  · rintro rfl
    exact hlisted value

/-- The parser takes a word exactly if its core names a value, and reports every other word as it
was given. It takes what is displayed for a value, does not look at the case of letters, and takes
no core with a character outside ASCII. -/
structure Reads {α : Type} (vocabulary : Vocabulary) (parse : String → Except UnknownWord α)
    (display : α → String) (isCore : String → String → Prop) (names : String → α → Prop) :
    Prop where
  parse_eq_ok_iff : ∀ word value,
    parse word = .ok value ↔ ∃ core, isCore word core ∧ names core value
  parse_eq_error_iff : ∀ word unknown, parse word = .error unknown ↔
    unknown = ⟨vocabulary, word⟩ ∧ ∀ core, isCore word core → ∀ value, ¬names core value
  parse_display : ∀ value, parse (display value) = .ok value
  parse_caseless : ∀ word other, word.toLower = other.toLower →
    ∀ value, parse word = .ok value ↔ parse other = .ok value
  ascii_of_parse : ∀ word value, parse word = .ok value →
    ∀ core, isCore word core → ∀ c ∈ core.toList, c.toNat < 128

section

variable {α : Type} {vocabulary : Vocabulary} {parse : String → Except UnknownWord α}
  {display : α → String} {isCore : String → String → Prop} {names : String → α → Prop}
  (strip : String → String) (hcore : ∀ word core, isCore word core ↔ core = strip word)
  (hstrip : ∀ word, (strip word).toLower = strip word.toLower)
  (hdisplay : ∀ value, names (strip (display value)) value)

include hcore hstrip hdisplay

/-- The core is found by a function, and so is the value that it names. -/
theorem Reads.of_found (found : String → Option α)
    (hparse : ∀ word, parse word = vocabulary.require word (found (strip word)))
    (hfound : ∀ core value, found core = some value ↔ names core value)
    (hcase : ∀ core other value, core.toLower = other.toLower →
      names core value → names other value)
    (hascii : ∀ core value, names core value → ∀ c ∈ core.toList, c.toNat < 128) :
    Reads vocabulary parse display isCore names where
  parse_eq_ok_iff word value := by
    simp only [hparse, Vocabulary.require_eq_ok_iff, hfound, hcore, exists_eq_left]
  parse_eq_error_iff word unknown := by
    simp only [hparse, Vocabulary.require_eq_error_iff, hcore, forall_eq, ← hfound,
      Option.eq_none_iff_forall_ne_some, ne_eq]
  parse_display value := by
    rw [hparse, Vocabulary.require_eq_ok_iff, hfound]
    exact hdisplay value
  parse_caseless word other hsame value := by
    have hcores : (strip word).toLower = (strip other).toLower := by rw [hstrip, hstrip, hsame]
    simp only [hparse, Vocabulary.require_eq_ok_iff, hfound]
    exact ⟨hcase _ _ value hcores, hcase _ _ value hcores.symm⟩
  ascii_of_parse word value hvalue core hword := by
    rw [hparse, Vocabulary.require_eq_ok_iff, hfound, ← (hcore word core).mp hword] at hvalue
    exact hascii core value hvalue

/-- The value is looked up among spellings in ASCII, of which no two are the same. -/
theorem Reads.of_lookup (spellings : List (String × α))
    (hparse : ∀ word, parse word = vocabulary.require word (lookup? spellings (strip word)))
    (hdistinct : (spellings.map Prod.fst).Nodup)
    (hascii : spellings.all fun entry ↦ entry.1.toList.all fun c ↦ c.toNat < 128)
    (hnames : ∀ core value, names core value ↔ (core.toLower, value) ∈ spellings) :
    Reads vocabulary parse display isCore names := by
  have hfound (core : String) (value : α) :
      lookup? spellings core = some value ↔ names core value := by
    rw [lookup?, lookup_eq_some_iff hdistinct, hnames]
  refine Reads.of_found strip hcore hstrip hdisplay (lookup? spellings) hparse hfound ?_ ?_
  · intro core other value hsame
    rw [← hfound, ← hfound, lookup?_congr hsame]
    exact id
  · intro core value hnamed c hc
    have hlower : c.toLower ∈ core.toLower.toList := by
      rw [toList_toLower]
      exact List.mem_map_of_mem hc
    have hspelling := List.all_eq_true.mp hascii _ ((hnames core value).mp hnamed)
    exact toNat_lt_of_toLower (of_decide_eq_true (List.all_eq_true.mp hspelling _ hlower))

end

/-- Words are looked up as they are, and each value has one spelling. -/
theorem Reads.of_words {α : Type} {vocabulary : Vocabulary}
    {parse : String → Except UnknownWord α} (spellings : List (String × α)) (display : α → String)
    (hparse : ∀ word, parse word = vocabulary.require word (lookup? spellings word))
    (hdistinct : (spellings.map Prod.fst).Nodup)
    (hascii : spellings.all fun entry ↦ entry.1.toList.all fun c ↦ c.toNat < 128)
    (hspelled : ∀ entry ∈ spellings, entry.1 = (display entry.2).toLower)
    (hlisted : ∀ value, ((display value).toLower, value) ∈ spellings) :
    Reads vocabulary parse display Eq fun word value ↦
      word.toLower = (display value).toLower := by
  refine Reads.of_lookup id (fun _ _ ↦ eq_comm) (fun _ ↦ rfl) (fun _ ↦ rfl) spellings hparse
    hdistinct hascii fun word value ↦ ?_
  exact (mem_spellings_iff hspelled hlisted word.toLower value).symm

end Text

open Text

/-! ## The vocabularies -/

/-- Messages call an operator by its symbol or keyword in lower case. -/
theorem Operator.name_eq_toLower_sql (op : Operator) : op.name = op.sql.toLower := by
  cases op <;> decide +kernel

theorem Operator.reads : Reads .operator Operator.parse Operator.sql HasCore
    fun core op ↦ core.toLower = op.sql.toLower := by
  refine Reads.of_lookup trim (fun _ _ ↦ hasCore_iff) toLower_trim ?_ spellings (fun _ ↦ rfl)
    (by decide) (by decide) fun core op ↦ ?_
  · intro op
    have hsql : trim op.sql = op.sql := by cases op <;> decide
    rw [hsql]
  · have hnamed : ∀ entry ∈ spellings, entry.1 = entry.2.name := by decide
    have hlisted : ∀ op : Operator, (op.name, op) ∈ spellings := by
      intro op
      cases op <;> decide
    rw [← name_eq_toLower_sql]
    exact (mem_spellings_iff hnamed hlisted core.toLower op).symm

theorem Conjunction.reads : Reads .conjunction Conjunction.parse Conjunction.sql Eq
    fun word conjunction ↦ word.toLower = conjunction.sql.toLower := by
  refine .of_words spellings sql (fun _ ↦ rfl) (by decide) (by decide) (by decide +kernel) ?_
  intro conjunction
  cases conjunction <;> decide +kernel

theorem JoinKind.reads : Reads .joinKind JoinKind.parse JoinKind.sql Eq
    fun word kind ↦ word.toLower = kind.sql.toLower := by
  refine .of_words spellings sql (fun _ ↦ rfl) (by decide) (by decide) (by decide +kernel) ?_
  intro kind
  cases kind <;> decide +kernel

theorem OrderDirection.reads : Reads .orderDirection OrderDirection.parse OrderDirection.sql Eq
    fun word direction ↦ word.toLower = direction.sql.toLower := by
  refine .of_words spellings sql (fun _ ↦ rfl) (by decide) (by decide) (by decide +kernel) ?_
  intro direction
  cases direction <;> decide +kernel

theorem Flavor.reads : Reads .flavor Flavor.parse Flavor.name Eq fun word flavor ↦
    word.toLower = flavor.name.toLower ∨ word.toLower = "postgres" ∧ flavor = .postgresql := by
  refine Reads.of_lookup id (fun _ _ ↦ eq_comm) (fun _ ↦ rfl) (fun _ ↦ .inl rfl) spellings
    (fun _ ↦ rfl) (by decide) (by decide) fun word flavor ↦ ?_
  have hmysql : "MySQL".toLower = "mysql" := by decide +kernel
  have hpostgresql : "PostgreSQL".toLower = "postgresql" := by decide +kernel
  have hsqlite : "SQLite".toLower = "sqlite" := by decide +kernel
  cases flavor <;> simp [spellings, name, hmysql, hpostgresql, hsqlite]

theorem Placeholder.reads : Reads .placeholder Placeholder.parse Placeholder.symbol Eq
    fun word placeholder ↦ word = placeholder.symbol := by
  have hsymbol : ∀ entry ∈ spellings, entry.1 = entry.2.symbol := by decide
  have hlisted (placeholder : Placeholder) : (placeholder.symbol, placeholder) ∈ spellings := by
    cases placeholder <;> decide
  have hbefore (placeholder : Placeholder) : ∀ c ∈ placeholder.symbol.toList, c.toNat < 65 := by
    have hsigns : placeholder.symbol.toList.all fun c ↦ c.toNat < 65 := by
      cases placeholder <;> decide
    exact fun c hc ↦ of_decide_eq_true (List.all_eq_true.mp hsigns c hc)
  refine Reads.of_found id (fun _ _ ↦ eq_comm) (fun _ ↦ rfl) (fun _ ↦ rfl)
    (spellings.lookup ·) (fun _ ↦ rfl) ?_ ?_ ?_
  · intro word placeholder
    rw [lookup_eq_some_iff (by decide), mem_spellings_iff hsymbol hlisted]
  · rintro _ other placeholder hsame rfl
    have hmapped := congrArg String.toList hsame
    rw [toList_toLower, toList_toLower] at hmapped
    exact String.toList_inj.mp (eq_of_map_toLower_eq (hbefore placeholder) hmapped.symm)
  · rintro _ placeholder rfl c hc
    exact (hbefore placeholder c hc).trans (by decide)

/-- The blanks in what names an operator are the spaces of its spelling. -/
theorem Operator.eq_space_of_parse {word core : String} {op : Operator}
    (hparse : Operator.parse word = .ok op) (hcore : HasCore word core) {i : Nat} {c : Char}
    (hc : core.toList[i]? = some c) (hblank : isBlank c) :
    c = ' ' ∧ op.sql.toList[i]? = some ' ' := by
  obtain ⟨core', hcore', hsame⟩ := (reads.parse_eq_ok_iff word op).mp hparse
  rw [hasCore_iff.mp hcore', ← hasCore_iff.mp hcore] at hsame
  have hmapped : (core.toList.map Char.toLower)[i]? = (op.sql.toList.map Char.toLower)[i]? := by
    rw [← toList_toLower, ← toList_toLower, hsame]
  rw [List.getElem?_map, List.getElem?_map, hc, Option.map_some, eq_comm,
    Option.map_eq_some_iff] at hmapped
  obtain ⟨d, hd, hlower⟩ := hmapped
  have hspaces : op.sql.toList.all fun d ↦ !isBlank d || d == ' ' := by cases op <;> decide
  have hdblank : isBlank d := by rw [← isBlank_toLower, hlower, isBlank_toLower, hblank]
  have hspace := List.all_eq_true.mp hspaces d (List.mem_of_getElem? hd)
  obtain rfl : d = ' ' := by simpa [hdblank] using hspace
  exact ⟨eq_of_toLower_eq (by decide) hlower.symm, hd⟩

/-- Each parser takes exactly the words of its grammar. Around operators, and only there, blanks do
not count, which are the characters with the property White_Space; those inside of an operator are
the spaces of its spelling. -/
theorem words_are_read_as_spelled :
    Reads .operator Operator.parse Operator.sql HasCore
      (fun core op ↦ core.toLower = op.sql.toLower) ∧
    Reads .conjunction Conjunction.parse Conjunction.sql Eq
      (fun word conjunction ↦ word.toLower = conjunction.sql.toLower) ∧
    Reads .joinKind JoinKind.parse JoinKind.sql Eq
      (fun word kind ↦ word.toLower = kind.sql.toLower) ∧
    Reads .orderDirection OrderDirection.parse OrderDirection.sql Eq
      (fun word direction ↦ word.toLower = direction.sql.toLower) ∧
    Reads .flavor Flavor.parse Flavor.name Eq (fun word flavor ↦
      word.toLower = flavor.name.toLower ∨ word.toLower = "postgres" ∧ flavor = .postgresql) ∧
    Reads .placeholder Placeholder.parse Placeholder.symbol Eq
      (fun word placeholder ↦ word = placeholder.symbol) ∧
    (∀ c : Char, isBlank c ↔ ∃ range ∈ whiteSpace, range.1 ≤ c.toNat ∧ c.toNat ≤ range.2) ∧
    (∀ before word after : String, Blank before → Blank after → ∀ op,
      Operator.parse (before ++ word ++ after) = .ok op ↔ Operator.parse word = .ok op) ∧
    ∀ (word core : String) (op : Operator), Operator.parse word = .ok op → HasCore word core →
      ∀ (i : Nat) (c : Char), core.toList[i]? = some c → isBlank c →
        c = ' ' ∧ op.sql.toList[i]? = some ' ' := by
  refine ⟨Operator.reads, Conjunction.reads, JoinKind.reads, OrderDirection.reads, Flavor.reads,
    Placeholder.reads, isBlank_iff, ?_, ?_⟩
  · intro before word after hbefore hafter op
    simp only [Operator.parse, Vocabulary.require_eq_ok_iff, trim_append hbefore hafter]
  · intro word core op hparse hcore i c hc hblank
    exact Operator.eq_space_of_parse hparse hcore hc hblank

/-- No-break and wide spaces around an operator, two spaces inside of one, a Kelvin sign. -/
theorem words_are_read_as_spelled_beside_odd_characters :
    Blank "\u00a0" ∧ Blank "\u2003\n" ∧
      Operator.parse ("\u00a0" ++ "nOT In" ++ "\u2003\n") = .ok .notIn ∧
      Operator.parse "NOT  IN" = .error ⟨.operator, "NOT  IN"⟩ ∧
      Operator.parse " LI\u212aE" = .error ⟨.operator, " LI\u212aE"⟩ ∧
      "PostGres".toLower = "postgres" ∧ Flavor.parse "PostGres" = .ok .postgresql ∧
      Conjunction.parse "AND " = .error ⟨.conjunction, "AND "⟩ := by
  obtain ⟨hoperator, hconjunction, -, -, hflavor, -, -, hblanks, -⟩ := words_are_read_as_spelled
  have hbefore : Blank "\u00a0" := by decide
  have hafter : Blank "\u2003\n" := by decide
  have hcaseless : "nOT In".toLower = "NOT IN".toLower := by
    have hlower : "nOT In".toLower = Operator.notIn.name := by decide +kernel
    rw [hlower, Operator.name_eq_toLower_sql, Operator.sql]
  have hword : Operator.parse "nOT In" = .ok .notIn :=
    (hoperator.parse_caseless _ _ hcaseless .notIn).mpr (hoperator.parse_display .notIn)
  have hshort : "PostGres".toLower = "postgres" := by decide +kernel
  have hrefused (word : String) (h : ∀ op : Operator, (trim word).toLower ≠ op.name) :
      Operator.parse word = .error ⟨.operator, word⟩ := by
    refine (hoperator.parse_eq_error_iff _ _).mpr ⟨rfl, fun core hcore op ↦ ?_⟩
    rw [hasCore_iff.mp hcore, ← Operator.name_eq_toLower_sql]
    exact h op
  have hspaces : Operator.parse "NOT  IN" = .error ⟨.operator, "NOT  IN"⟩ := by
    apply hrefused
    intro op
    cases op <;> decide +kernel
  have hkelvin : Operator.parse " LI\u212aE" = .error ⟨.operator, " LI\u212aE"⟩ := by
    apply hrefused
    intro op
    cases op <;> decide +kernel
  have hunspelled : ∀ conjunction : Conjunction, "AND ".toLower ≠ conjunction.sql.toLower := by
    intro conjunction
    cases conjunction <;> decide +kernel
  refine ⟨hbefore, hafter, (hblanks _ _ _ hbefore hafter .notIn).mpr hword, hspaces, hkelvin,
    hshort, (hflavor.parse_eq_ok_iff _ _).mpr ⟨_, rfl, .inr ⟨hshort, rfl⟩⟩,
    (hconjunction.parse_eq_error_iff _ _).mpr ⟨rfl, ?_⟩⟩
  rintro _ rfl
  exact hunspelled

end SqlSelect
