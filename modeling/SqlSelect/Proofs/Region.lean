import SqlSelect.Proofs.Vanishing

/-!
# Documents around a region

What a node yields may be known but for one region of it. The region is kept if there
are fixed chunks around it, whatever it is filled with. All layouts keep a region,
except that an entry without text is left out of its group, so what fills the region
must not be blank.
-/

namespace SqlSelect

open Document

/-- What is yielded for a region is the region with fixed chunks around it. -/
def Keeps (yield : Document → Document) : Prop :=
  ∃ before after : Document, ∀ region, isBlank region = false →
    yield region = before ++ region ++ after

/-- The region stands in one of several documents, and the others are fixed. -/
def KeepsAmong (yield : Document → List Document) : Prop :=
  ∃ earlier, ∃ one, ∃ later, Keeps one ∧ ∀ region, isBlank region = false →
    yield region = earlier ++ one region :: later

/-- There is a document, in which the region stands. -/
def KeepsPresent (yield : Document → Option Document) : Prop :=
  ∃ one, Keeps one ∧ ∀ region, isBlank region = false → yield region = some (one region)

/-- What a node of the kind yields for a region keeps it. -/
def Kind.Keeps : (kind : Kind) → (Document → kind.Rendered Document) → Prop
  | .one _, yield => SqlSelect.Keeps yield
  | .many _, yield => KeepsAmong yield
  | .maybe _, yield => KeepsPresent yield

/-! ## Documents -/

namespace Keeps

theorem refl : Keeps fun region ↦ region :=
  ⟨[], [], fun region _ ↦ (List.append_nil region).symm⟩

variable {yield : Document → Document} (h : Keeps yield)

include h

theorem isBlank_eq {region : Document} (hregion : isBlank region = false) :
    isBlank (yield region) = false := by
  obtain ⟨before, after, hyield⟩ := h
  simp [hyield region hregion, hregion]

theorem appendLeft (before : Document) : Keeps fun region ↦ before ++ yield region := by
  obtain ⟨earlier, after, hyield⟩ := h
  refine ⟨before ++ earlier, after, fun region hregion ↦ ?_⟩
  simp [hyield region hregion]

theorem appendRight (after : Document) : Keeps fun region ↦ yield region ++ after := by
  obtain ⟨before, later, hyield⟩ := h
  refine ⟨before, later ++ after, fun region hregion ↦ ?_⟩
  simp [hyield region hregion]

theorem enclosed : Keeps fun region ↦ Reference.enclosed (yield region) :=
  (h.appendLeft _).appendRight _

theorem labelled (style : Style) (label : Option String) :
    Keeps fun region ↦ Reference.labelled style (yield region) label := by
  cases label with
  | none => exact h
  | some label => exact (h.appendRight _).appendRight _

theorem cons (rest : List Document) : KeepsAmong fun region ↦ yield region :: rest :=
  ⟨[], yield, rest, h, fun _ _ ↦ rfl⟩

theorem present : KeepsPresent fun region ↦ some (yield region) :=
  ⟨yield, h, fun _ _ ↦ rfl⟩

end Keeps

theorem Keeps.congr {yield other : Document → Document} (h : Keeps other)
    (heq : ∀ region, isBlank region = false → yield region = other region) : Keeps yield := by
  obtain ⟨before, after, hother⟩ := h
  exact ⟨before, after, fun region hregion ↦ (heq region hregion).trans (hother region hregion)⟩

/-! ## Sequences -/

namespace KeepsAmong

variable {yield : Document → List Document} (h : KeepsAmong yield)

include h

theorem consLeft (document : Document) : KeepsAmong fun region ↦ document :: yield region := by
  obtain ⟨earlier, one, later, hone, hyield⟩ := h
  exact ⟨document :: earlier, one, later, hone,
    fun region hregion ↦ congrArg (document :: ·) (hyield region hregion)⟩

/-- Each document is laid out by itself. -/
theorem map {layout : Document → Document}
    (hlayout : ∀ {one : Document → Document}, Keeps one → Keeps fun region ↦ layout (one region)) :
    KeepsAmong fun region ↦ (yield region).map layout := by
  obtain ⟨earlier, one, later, hone, hyield⟩ := h
  refine ⟨earlier.map layout, _, later.map layout, hlayout hone, fun region hregion ↦ ?_⟩
  simp only [hyield region hregion, List.map_append, List.map_cons]

theorem flatten : Keeps fun region ↦ (yield region).flatten := by
  obtain ⟨earlier, one, later, hone, hyield⟩ := h
  refine ((hone.appendLeft earlier.flatten).appendRight later.flatten).congr fun region hregion ↦ ?_
  rw [hyield region hregion, List.flatten_append, List.flatten_cons, List.append_assoc]

theorem separated (separator : String) :
    Keeps fun region ↦ Document.separated separator (yield region) := by
  obtain ⟨earlier, one, later, hone, hyield⟩ := h
  -- The separator follows each earlier document and precedes each later one.
  have hlater : ∀ document, Document.separated separator (document :: later) =
      document ++ later.flatMap (fixed separator ++ ·) := by
    clear hyield
    induction later with
    | nil => simp
    | cons next later ih => simp [ih]
  have hearlier : ∀ region, Document.separated separator (earlier ++ one region :: later) =
      earlier.flatMap (· ++ fixed separator) ++
        Document.separated separator (one region :: later) := by
    intro region
    clear hyield
    induction earlier with
    | nil => rfl
    | cons document earlier ih => cases earlier <;> simp_all
  refine ((hone.appendLeft (earlier.flatMap (· ++ fixed separator))).appendRight
    (later.flatMap (fixed separator ++ ·))).congr fun region hregion ↦ ?_
  rw [hyield region hregion, hearlier, hlater, List.append_assoc]

theorem flatMap {layout : Document → Document}
    (hlayout : ∀ {one : Document → Document}, Keeps one → Keeps fun region ↦ layout (one region)) :
    Keeps fun region ↦ (yield region).flatMap layout := by
  simp only [List.flatMap_def]
  exact (h.map hlayout).flatten

theorem lines (style : Style) : Keeps fun region ↦ Reference.lines style (yield region) :=
  (h.map fun hone ↦ hone.appendLeft _).separated _

theorem exists_cons {region : Document} (hregion : isBlank region = false) :
    ∃ document documents, yield region = document :: documents := by
  obtain ⟨earlier, one, later, -, hyield⟩ := h
  rw [hyield region hregion]
  cases earlier with
  | nil => exact ⟨_, _, rfl⟩
  | cons document earlier => exact ⟨_, _, rfl⟩

theorem columns (style : Style) : Keeps fun region ↦ Reference.columns style (yield region) := by
  refine (h.lines style).congr fun region hregion ↦ ?_
  obtain ⟨document, documents, hyield⟩ := h.exists_cons hregion
  rw [hyield]
  rfl

theorem listed {layout : List Document → Document}
    (hlayout : Keeps fun region ↦ layout (yield region)) :
    KeepsPresent fun region ↦ Reference.listed layout (yield region) := by
  refine ⟨_, hlayout, fun region hregion ↦ ?_⟩
  obtain ⟨document, documents, hyield⟩ := h.exists_cons hregion
  simp only [hyield]
  rfl

/-- The entry in which the region stands is one of those that are written. -/
theorem exists_survivors {conjunctions : List Conjunction} {sample : Document}
    (hsample : isBlank sample = false) (hlength : (yield sample).length = conjunctions.length) :
    ∃ before conjunction one after, Keeps one ∧ ∀ region, isBlank region = false →
      (conjunctions.zip (yield region)).filter (fun entry ↦ !isBlank entry.2) =
        before ++ (conjunction, one region) :: after := by
  obtain ⟨earlier, one, later, hone, hyield⟩ := h
  rw [hyield sample hsample, List.length_append, List.length_cons] at hlength
  obtain ⟨leading, conjunction, rest, rfl, hleading⟩ :
      ∃ leading conjunction rest, conjunctions = leading ++ conjunction :: rest ∧
        leading.length = earlier.length := by
    have hlt : earlier.length < conjunctions.length := by omega
    refine ⟨conjunctions.take earlier.length, conjunctions[earlier.length],
      conjunctions.drop (earlier.length + 1), by simp, ?_⟩
    rw [List.length_take, Nat.min_eq_left (Nat.le_of_lt hlt)]
  refine ⟨(leading.zip earlier).filter fun entry ↦ !isBlank entry.2, conjunction, one,
    (rest.zip later).filter fun entry ↦ !isBlank entry.2, hone, fun region hregion ↦ ?_⟩
  have hentry := hone.isBlank_eq hregion
  rw [hyield region hregion, List.zip_append hleading, List.zip_cons_cons, List.filter_append,
    List.filter_cons_of_pos (by simp [hentry])]

/-- Whether the conjunction before the region is written depends on the entries before it only. -/
theorem group (style : Style) {conjunctions : List Conjunction} {sample : Document}
    (hsample : isBlank sample = false) (hlength : (yield sample).length = conjunctions.length) :
    KeepsPresent fun region ↦ Reference.group style (conjunctions.zip (yield region)) := by
  obtain ⟨before, conjunction, one, after, hone, hentries⟩ := h.exists_survivors hsample hlength
  cases before with
  | nil =>
    refine ⟨_, hone.appendRight (Reference.continuation style after), fun region hregion ↦ ?_⟩
    simp only [Reference.group, hentries region hregion]
    rfl
  | cons first before =>
    let line := fixed ("\n" ++ style.indent ++ conjunction.sql ++ " ")
    refine ⟨_, ((hone.appendLeft line).appendLeft
      (first.2 ++ Reference.continuation style before)).appendRight
      (Reference.continuation style after), fun region hregion ↦ ?_⟩
    simp [Reference.group, hentries region hregion, Reference.continuation, line]

end KeepsAmong

/-! ## Optional documents -/

namespace KeepsPresent

variable {yield : Document → Option Document} (h : KeepsPresent yield)

include h

theorem map {layout : Document → Document}
    (hlayout : ∀ {one : Document → Document}, Keeps one → Keeps fun region ↦ layout (one region)) :
    KeepsPresent fun region ↦ (yield region).map layout := by
  obtain ⟨one, hone, hyield⟩ := h
  exact ⟨_, hlayout hone, fun region hregion ↦ congrArg (Option.map layout) (hyield region hregion)⟩

theorem elim {layout : Document → Document}
    (hlayout : ∀ {one : Document → Document}, Keeps one → Keeps fun region ↦ layout (one region)) :
    Keeps fun region ↦ (yield region).elim [] layout := by
  obtain ⟨one, hone, hyield⟩ := h
  exact (hlayout hone).congr fun region hregion ↦
    congrArg (Option.elim · [] layout) (hyield region hregion)

theorem clause (keyword : String) :
    Keeps fun region ↦ Reference.clause keyword (yield region) := by
  obtain ⟨one, hone, hyield⟩ := h
  exact (hone.appendLeft _).congr fun region hregion ↦
    congrArg (Reference.clause keyword) (hyield region hregion)

end KeepsPresent

end SqlSelect
