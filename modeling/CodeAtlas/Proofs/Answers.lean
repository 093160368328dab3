import CodeAtlas.Service.Inquiry

/-!
What a computation may come to when nothing is known of the service. `Inquiry.Gives x a` says that
some answers lead `x` to `a`: a query may be answered in any way, by a failure too, and differently
each time it is asked. A service that answers by the query alone gives such a result
(`gives_answer`), and so does one that keeps a state (`gives_runIn`). `Inquiry.GivesAfter x asked a`
says besides which queries are asked on the way.
-/
namespace CodeAtlas.Inquiry

variable {α β σ : Type}

instance : LawfulMonad Inquiry := by
  have assoc : ∀ {α β γ : Type} (x : Inquiry α) (f : α → Inquiry β) (g : β → Inquiry γ),
      (x.bind f).bind g = x.bind fun a => (f a).bind g := by
    intro α β γ x f g
    induction x with
    | done a => rfl
    | ask q next ih => exact congrArg (ask q) (funext ih)
  have id_map : ∀ {α : Type} (x : Inquiry α), x.bind done = x := by
    intro α x
    induction x with
    | done a => rfl
    | ask q next ih => exact congrArg (ask q) (funext ih)
  exact LawfulMonad.mk' Inquiry id_map (fun _ _ => rfl) assoc

/-! ## One service -/

theorem answer_mapM (service : Service) (f : α → Inquiry β) (l : List α) :
    (l.mapM f).answer service = l.map fun a => (f a).answer service := by
  induction l with
  | nil => rfl
  | cons a rest ih =>
    rw [List.mapM_cons, answer_bind, answer_bind, ih]
    rfl

/-! ## Any answers -/

/-- Some answers lead the computation to the result. -/
inductive Gives : Inquiry α → α → Prop where
  | done (a : α) : Gives (.done a) a
  | ask {q : Query} {next : Option q.Answer → Inquiry α} {a : α} (answer : Option q.Answer)
      (rest : Gives (next answer) a) : Gives (.ask q next) a

theorem gives_answer (service : Service) (x : Inquiry α) : x.Gives (x.answer service) := by
  induction x with
  | done a => exact .done a
  | ask q next ih => exact .ask (service q) (ih (service q))

theorem gives_runIn (service : (q : Query) → StateM σ (Option q.Answer)) (x : Inquiry α) :
    ∀ s, x.Gives (x.runIn service s).1 := by
  induction x with
  | done a => exact fun _ => .done a
  | ask q next ih =>
    intro s
    exact .ask (service q s).1 (ih (service q s).1 (service q s).2)

theorem gives_pure {a b : α} : (pure a : Inquiry α).Gives b ↔ b = a := by
  refine ⟨?_, ?_⟩
  · intro h
    cases h
    rfl
  · rintro rfl
    exact .done b

/-- What a composed computation gives is what its second part gives from what its first gives. -/
theorem gives_bind {x : Inquiry α} {f : α → Inquiry β} {b : β} :
    (x >>= f).Gives b ↔ ∃ a, x.Gives a ∧ (f a).Gives b := by
  refine ⟨?_, ?_⟩
  · intro h
    induction x with
    | done a => exact ⟨a, .done a, h⟩
    | ask q next ih =>
      cases h with
      | ask answer rest =>
        obtain ⟨a, ha, hb⟩ := ih answer rest
        exact ⟨a, .ask answer ha, hb⟩
  · rintro ⟨a, ha, hb⟩
    induction ha with
    | done a => exact hb
    | ask answer _ ih => exact .ask answer (ih hb)

/-- What is given for a list is given for its members. -/
theorem gives_mapM {f : α → Inquiry β} {l : List α} {bs : List β} (h : (l.mapM f).Gives bs) :
    ∀ b ∈ bs, ∃ a ∈ l, (f a).Gives b := by
  induction l generalizing bs with
  | nil =>
    obtain rfl := gives_pure.mp h
    exact fun b hb => absurd hb List.not_mem_nil
  | cons a rest ih =>
    rw [List.mapM_cons] at h
    obtain ⟨b, first, h⟩ := gives_bind.mp h
    obtain ⟨bs, others, h⟩ := gives_bind.mp h
    obtain rfl := gives_pure.mp h
    refine List.forall_mem_cons.mpr ⟨⟨a, List.mem_cons_self, first⟩, fun b hb => ?_⟩
    obtain ⟨a', ha', gives⟩ := ih others b hb
    exact ⟨a', List.mem_cons_of_mem a ha', gives⟩

theorem gives_foldlM_cons {f : β → α → Inquiry β} {a : α} {rest : List α} {b c : β} :
    ((a :: rest).foldlM f b).Gives c ↔ ∃ b', (f b a).Gives b' ∧ (rest.foldlM f b').Gives c := by
  rw [List.foldlM_cons]
  exact gives_bind

/-- What each step preserves is preserved by all of them. -/
theorem gives_foldlM {f : β → α → Inquiry β} {P : β → Prop} (l : List α)
    (step : ∀ b, ∀ a ∈ l, ∀ b', P b → (f b a).Gives b' → P b') :
    ∀ {b b'}, P b → (l.foldlM f b).Gives b' → P b' := by
  induction l with
  | nil =>
    intro b b' hb h
    rw [List.foldlM_nil, gives_pure] at h
    exact h ▸ hb
  | cons a rest ih =>
    intro b b' hb h
    obtain ⟨b₁, h₁, h₂⟩ := gives_foldlM_cons.mp h
    refine ih (fun b a ha => step b a (List.mem_cons_of_mem _ ha)) ?_ h₂
    exact step b a List.mem_cons_self b₁ hb h₁

/-- Some answers lead the computation to the result, and on the way it asks the queries. -/
inductive GivesAfter : Inquiry α → List Query → α → Prop where
  | done (a : α) : GivesAfter (.done a) [] a
  | ask {q : Query} {next : Option q.Answer → Inquiry α} {asked : List Query} {a : α}
      (answer : Option q.Answer) (rest : GivesAfter (next answer) asked a) :
      GivesAfter (.ask q next) (q :: asked) a

theorem givesAfter_answer (service : Service) (x : Inquiry α) :
    x.GivesAfter (x.queries service) (x.answer service) := by
  induction x with
  | done a => exact .done a
  | ask q next ih => exact .ask (service q) (ih (service q))

theorem givesAfter_pure {a b : α} {asked : List Query} :
    (pure a : Inquiry α).GivesAfter asked b ↔ asked = [] ∧ b = a := by
  refine ⟨?_, ?_⟩
  · intro h
    cases h
    exact ⟨rfl, rfl⟩
  · rintro ⟨rfl, rfl⟩
    exact .done b

/-- A composed computation asks what its first part asks and then what its second part asks. -/
theorem givesAfter_bind {x : Inquiry α} {f : α → Inquiry β} {asked : List Query} {b : β} :
    (x >>= f).GivesAfter asked b ↔
      ∃ a asked₁ asked₂, x.GivesAfter asked₁ a ∧ (f a).GivesAfter asked₂ b ∧
        asked = asked₁ ++ asked₂ := by
  refine ⟨?_, ?_⟩
  · intro h
    induction x generalizing asked with
    | done a => exact ⟨a, [], asked, .done a, h, rfl⟩
    | ask q next ih =>
      cases h with
      | ask answer rest =>
        obtain ⟨a, asked₁, asked₂, first, second, rfl⟩ := ih answer rest
        exact ⟨a, q :: asked₁, asked₂, .ask answer first, second, rfl⟩
  · rintro ⟨a, asked₁, asked₂, first, second, rfl⟩
    induction first with
    | done a => exact second
    | ask answer _ ih => exact .ask answer (ih second)

end CodeAtlas.Inquiry
