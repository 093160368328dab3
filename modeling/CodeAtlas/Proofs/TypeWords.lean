import CodeAtlas.Proofs.BaseNames
import CodeAtlas.Proofs.Runs

/-!
The words of a type expression are its identifiers, in order, as long as no identifier has a dollar
sign in it (`runs_text`): such a name is more than one word.
-/
namespace CodeAtlas

namespace TypeExpression

mutual

/-- The identifiers of an expression in order: those of libraries and those of types. -/
def identifiers : TypeExpression → List Identifier
  | ⟨library, name, arguments, _⟩ => library.toList ++ name :: identifiersOf arguments

def identifiersOf : List TypeExpression → List Identifier
  | [] => []
  | t :: rest => t.identifiers ++ identifiersOf rest

end

theorem mem_identifiersOf {t : TypeExpression} {ts : List TypeExpression} {n : Identifier}
    (h : t ∈ ts) (hn : n ∈ t.identifiers) : n ∈ identifiersOf ts := by
  induction ts with
  | nil => cases h
  | cons u ts ih =>
    rw [identifiersOf, List.mem_append]
    rcases List.mem_cons.mp h with rfl | h
    · exact .inl hn
    · exact .inr (ih h)

theorem forall_mem_furtherText {P : Char → Prop} {ts : List TypeExpression}
    (marks : ∀ c ∈ ['.', '<', '>', ',', ' ', '?'], P c) (h : ∀ t ∈ ts, ∀ c ∈ t.text, P c) :
    ∀ c ∈ furtherText ts, P c := by
  have mark {s : List Char} (h : ∀ c ∈ s, c ∈ ['.', '<', '>', ',', ' ', '?']) : ∀ c ∈ s, P c :=
    fun c hc => marks c (h c hc)
  induction ts with
  | nil => exact mark (by decide)
  | cons t ts ih =>
    obtain ⟨here, others⟩ := List.forall_mem_cons.mp h
    rw [furtherText_cons, List.forall_mem_append, List.forall_mem_append]
    exact ⟨mark (by decide), here, ih others⟩

/-- What holds of the characters of its identifiers and of the marks between them holds of all
characters of an expression. -/
theorem forall_mem_text {P : Char → Prop} {t : TypeExpression}
    (marks : ∀ c ∈ ['.', '<', '>', ',', ' ', '?'], P c)
    (names : ∀ n ∈ t.identifiers, ∀ c ∈ n.text, P c) : ∀ c ∈ t.text, P c := by
  have mark {s : List Char} (h : ∀ c ∈ s, c ∈ ['.', '<', '>', ',', ' ', '?']) : ∀ c ∈ s, P c :=
    fun c hc => marks c (h c hc)
  induction t using induct with
  | step library name arguments nullable ih =>
    rw [identifiers, List.forall_mem_append, List.forall_mem_cons] at names
    obtain ⟨names_library, names_name, names_arguments⟩ := names
    have each : ∀ t ∈ arguments, ∀ c ∈ t.text, P c := fun t ht => ih t ht fun n hn =>
      names_arguments n (mem_identifiersOf ht hn)
    have inner : ∀ c ∈ argumentText arguments, P c := by
      cases arguments with
      | nil => exact fun _ h => nomatch h
      | cons t ts =>
        obtain ⟨here, others⟩ := List.forall_mem_cons.mp each
        rw [argumentText_cons, List.forall_mem_cons, List.forall_mem_append]
        exact ⟨marks '<' (by decide), here, forall_mem_furtherText marks others⟩
    have outer : ∀ c ∈ libraryText library, P c := by
      cases library with
      | none => exact fun _ h => nomatch h
      | some library =>
        rw [libraryText, List.forall_mem_append]
        exact ⟨names_library library List.mem_cons_self, mark (by decide)⟩
    rw [text, List.forall_mem_append, List.forall_mem_append, List.forall_mem_append]
    exact ⟨outer, names_name, inner, mark (by cases nullable <;> decide)⟩

theorem isWord_of_plain {n : Identifier} (plain : '$' ∉ n.text) : ∀ c ∈ n.text, Text.isWord c :=
  fun c hc => TypeName.isWord_of_isNameChar (n.isNameChar_of_mem c hc) fun same =>
    plain (same ▸ hc)

theorem head_furtherText_not_isWord (ts : List TypeExpression) :
    ∀ c ∈ (furtherText ts).head?, Text.isWord c = false := by
  cases ts with
  | nil => exact Parameters.forall_mem_head?_cons (by decide)
  | cons t ts => exact Parameters.forall_mem_head?_cons (by decide)

theorem runs_furtherText {ts : List TypeExpression}
    (h : ∀ t ∈ ts, Text.runs Text.isWord t.text = t.identifiers.map Identifier.text) :
    Text.runs Text.isWord (furtherText ts) = (identifiersOf ts).map Identifier.text := by
  induction ts with
  | nil => decide
  | cons t ts ih =>
    obtain ⟨here, others⟩ := List.forall_mem_cons.mp h
    have comma : ∀ c ∈ ", ".toList, Text.isWord c = false := by decide
    rw [furtherText_cons, Text.runs_append_of_none comma,
      Text.runs_append (head_furtherText_not_isWord ts), here, ih others, identifiersOf,
      List.map_append]

theorem runs_argumentText {ts : List TypeExpression}
    (h : ∀ t ∈ ts, Text.runs Text.isWord t.text = t.identifiers.map Identifier.text) :
    Text.runs Text.isWord (argumentText ts) = (identifiersOf ts).map Identifier.text := by
  cases ts with
  | nil => rfl
  | cons t ts =>
    obtain ⟨here, others⟩ := List.forall_mem_cons.mp h
    rw [argumentText_cons, Text.runs_cons (by decide),
      Text.runs_append (head_furtherText_not_isWord ts), here, runs_furtherText others,
      identifiersOf, List.map_append]

/-- The words of an expression are its identifiers. -/
theorem runs_text {t : TypeExpression} (plain : ∀ n ∈ t.identifiers, '$' ∉ n.text) :
    Text.runs Text.isWord t.text = t.identifiers.map Identifier.text := by
  induction t using induct with
  | step library name arguments nullable ih =>
    rw [identifiers, List.forall_mem_append, List.forall_mem_cons] at plain
    obtain ⟨plain_library, plain_name, plain_arguments⟩ := plain
    have whole {n : Identifier} (plain : '$' ∉ n.text) : Text.runs Text.isWord n.text = [n.text] :=
      Text.runs_of_all n.text_ne_nil (isWord_of_plain plain)
    have mark : ∀ c ∈ questionText nullable, Text.isWord c = false := by cases nullable <;> decide
    have inner : Text.runs Text.isWord (argumentText arguments ++ questionText nullable) =
        (identifiersOf arguments).map Identifier.text := by
      rw [Text.runs_append_none mark]
      exact runs_argumentText fun t ht => ih t ht fun n hn =>
        plain_arguments n (mem_identifiersOf ht hn)
    have behind : ∀ c ∈ (argumentText arguments ++ questionText nullable).head?,
        Text.isWord c = false := by
      cases arguments with
      | nil => exact fun c hc => mark c (List.mem_of_mem_head? hc)
      | cons t ts => exact Parameters.forall_mem_head?_cons (by decide)
    cases library with
    | none =>
      rw [text, libraryText, List.nil_append, Text.runs_append behind, whole plain_name, inner]
      rfl
    | some library =>
      have library_word := whole (plain_library library List.mem_cons_self)
      rw [text, libraryText, List.append_assoc, List.singleton_append,
        Text.runs_append_cons (by decide), library_word, Text.runs_append behind,
        whole plain_name, inner]
      rfl

end TypeExpression

end CodeAtlas
