import CodeAtlas.Proofs.CallSites

/-!
Call sites as whole names. A name stands in a text where a longest piece of letters begins with one that
may begin a name (`Stands`), and a call stands where such a name is followed by a parenthesis
(`Call.In`); its qualifier is the name in front of the point in front of it. While a text is searched,
no name is left half read, and behind a name that has been read and passed over there is no member to be
called (`Unmet`). So a search finds the calls that stand in the text, each with its qualifier and in
their order (`exists_calls`), as long as no name is glued to characters that cannot begin one.
-/
namespace CodeAtlas.Source

open Parameters (isNameChar)
open Text (isAsciiDigit isBlank isIdentPart isIdentStart)

variable {part start part' start' : Char → Bool} {s front lead name q w behind rest piece : List Char}
  {whole : List Char} {call : Call} {calls : List Call} {c x : Char}

/-! ## Calls in a text -/

/-- A name as it stands in a text: all of its characters are letters, the first may begin a name, and
there is no letter around it. -/
structure Stands (part start : Char → Bool) (front name behind : List Char) : Prop where
  letters : ∀ c ∈ name, part c
  first : ∃ c ∈ name.head?, start c
  apart : ∀ c ∈ front.getLast?, part c = false
  ends : ∀ c ∈ behind.head?, part c = false

/-- What is called at a place: what stands in front of the name, its qualifier and the name. -/
structure Call where
  front : List Char
  qualifier? : Option (List Char)
  name : List Char

/-- The name with its qualifier, if it has one, and the name. -/
def Call.names (call : Call) : List (List Char) :=
  (call.qualifier?.map fun q => q ++ '.' :: call.name).toList ++ [call.name]

/-- A call as it stands in a text. -/
structure Call.In (part start : Char → Bool) (s : List Char) (call : Call) : Prop where
  called : ∃ gap rest, s = call.front ++ (call.name ++ (gap ++ '(' :: rest)) ∧
    (∀ c ∈ gap, isBlank c) ∧ Stands part start call.front call.name (gap ++ '(' :: rest)
  qualified : ∀ q, call.qualifier? = some q ↔
    ∃ lead, call.front = lead ++ (q ++ ['.']) ∧ Stands part start lead q ['.']

theorem Stands.isName (h : Stands isIdentPart isIdentStart front name behind) : IsName name :=
  ⟨h.letters, h.first⟩

theorem IsName.ne_nil (h : IsName name) : name ≠ [] := by
  obtain ⟨c, t, rfl, -⟩ := h.exists_cons
  exact List.cons_ne_nil c t

/-- The calls of a text behind a part of it, in their order. -/
structure CallsBehind (whole front : List Char) (calls : List Call) : Prop where
  ordered : calls.Pairwise fun a b => a.front.length < b.front.length
  mem_iff : ∀ call, call ∈ calls ↔ call.In isIdentPart isIdentStart whole ∧ front <+: call.front

/-- A piece in which no call stands is passed over. -/
theorem CallsBehind.skip (h : CallsBehind whole (front ++ piece) calls)
    (none_here : ∀ call : Call, call.In isIdentPart isIdentStart whole → front <+: call.front →
      front ++ piece <+: call.front) : CallsBehind whole front calls where
  ordered := h.ordered
  mem_iff call := by
    rw [h.mem_iff]
    exact ⟨fun ⟨inside, far⟩ => ⟨inside, (List.prefix_append front piece).trans far⟩,
      fun ⟨inside, near⟩ => ⟨inside, none_here call inside near⟩⟩

/-- The only call that stands in a piece comes first. -/
theorem CallsBehind.cons (h : CallsBehind whole (front ++ piece) calls)
    (inside : call.In isIdentPart isIdentStart whole) (near : front <+: call.front)
    (before : call.front.length < (front ++ piece).length)
    (only : ∀ other : Call, other.In isIdentPart isIdentStart whole → front <+: other.front →
      other = call ∨ front ++ piece <+: other.front) : CallsBehind whole front (call :: calls) where
  ordered := List.pairwise_cons.mpr
    ⟨fun other hc => before.trans_le ((h.mem_iff other).mp hc).2.length_le, h.ordered⟩
  mem_iff other := by
    rw [List.mem_cons, h.mem_iff]
    constructor
    · rintro (rfl | ⟨inside', far⟩)
      · exact ⟨inside, near⟩
      · exact ⟨inside', (List.prefix_append front piece).trans far⟩
    · rintro ⟨inside', near'⟩
      exact (only other inside' near').imp_right fun far => ⟨inside', far⟩

/-- What stands in front of a name decides on its qualifier. -/
theorem Call.In.eq_of_same {other : Call} (h : call.In part start s) (h' : other.In part start s)
    (same_front : other.front = call.front) (same_name : other.name = call.name) : other = call := by
  have same_qualifier : other.qualifier? = call.qualifier? :=
    Option.ext fun q => by rw [h'.qualified, h.qualified, same_front]
  cases call
  cases other
  cases same_front
  cases same_name
  cases same_qualifier
  rfl

/-- Where a call stands behind a part of the text. -/
theorem Call.In.exists_behind (h : call.In isIdentPart isIdentStart (front ++ s))
    (near : front <+: call.front) : ∃ a gap rest, call.front = front ++ a ∧
      s = a ++ (call.name ++ (gap ++ '(' :: rest)) ∧ (∀ c ∈ gap, isBlank c) ∧
      Stands isIdentPart isIdentStart a call.name (gap ++ '(' :: rest) := by
  obtain ⟨gap, rest, here, blank, stands⟩ := h.called
  obtain ⟨a, far⟩ := near
  refine ⟨a, gap, rest, far.symm, ?_, blank, stands.letters, stands.first, ?_, stands.ends⟩
  · rw [← far, List.append_assoc] at here
    exact List.append_cancel_left here
  · exact Apart.of_append (a := front) (far ▸ stands.apart)

/-- No call stands in a piece in which no name begins. -/
theorem Call.In.past_unstarted (inside : call.In isIdentPart isIdentStart whole)
    (here : whole = front ++ (piece ++ s)) (unstarted : ∀ c ∈ piece, isIdentStart c = false)
    (near : front <+: call.front) : front ++ piece <+: call.front := by
  obtain ⟨a, gap, rest, far, split, -, stands⟩ := (here ▸ inside).exists_behind near
  rw [far, List.prefix_append_right_inj]
  rcases List.append_eq_append_iff.mp split with ⟨more, rfl, -⟩ | ⟨more, rfl, tail⟩
  · exact List.prefix_append piece more
  · cases more with
    | nil => exact ⟨[], by simp⟩
    | cons x more =>
      obtain ⟨y, t, named, first, -⟩ := stands.isName.exists_cons
      rw [named] at tail
      obtain ⟨rfl, -⟩ := List.cons.inj tail
      rw [unstarted y (List.mem_append_right _ List.mem_cons_self)] at first
      cases first

/-- A call that stands behind the beginning of a name is one of that name, or it stands behind it. -/
theorem Call.In.at_name (inside : call.In isIdentPart isIdentStart whole)
    (here : whole = front ++ (w ++ behind)) (stands : Stands isIdentPart isIdentStart front w behind)
    (near : front <+: call.front) :
    (call.front = front ∧ call.name = w ∧
      ∃ gap rest, behind = gap ++ '(' :: rest ∧ ∀ c ∈ gap, isBlank c) ∨
    front ++ w <+: call.front := by
  obtain ⟨a, gap, rest, far, split, blank, stands'⟩ := (here ▸ inside).exists_behind near
  obtain ⟨taken, dropped⟩ := takeWhile_name stands.letters stands.ends
  obtain ⟨taken', dropped'⟩ := takeWhile_name stands'.letters stands'.ends
  rw [far, List.prefix_append_right_inj]
  rcases List.append_eq_append_iff.mp split with ⟨more, rfl, -⟩ | ⟨more, rfl, tail⟩
  · exact .inr (List.prefix_append w more)
  · rcases List.eq_nil_or_concat' a with rfl | ⟨a, x, rfl⟩
    · refine .inl ⟨List.append_nil front, ?_, gap, rest, ?_, blank⟩
      · rw [← taken', tail]
        exact taken
      · rw [← dropped', tail]
        exact dropped.symm
    · -- a letter would stand in front of the name
      have outside := stands'.apart x List.getLast?_concat
      rw [stands.letters x (by simp)] at outside
      cases outside

/-- A name at the end of a text begins at one place. -/
theorem eq_of_last_name {a b v : List Char} (apart_a : Apart a) (apart_b : Apart b)
    (v_name : IsName v) (w_name : IsName w) (same : a ++ v = b ++ w) : a = b ∧ v = w := by
  have nothing_between : ∀ {a b v w : List Char} {more}, Apart b → IsName v → b = a ++ more →
      v = more ++ w → more = [] := by
    rintro a _ _ w more apart named rfl rfl
    by_contra some_more
    have last := List.getLast?_eq_some_getLast some_more
    have outside := apart _ (by rw [List.getLast?_append, last]; rfl)
    rw [named.1 _ (List.mem_append_left _ (List.getLast_mem some_more))] at outside
    cases outside
  rcases List.append_eq_append_iff.mp same with ⟨more, hb, hv⟩ | ⟨more, ha, hw⟩
  · obtain rfl := nothing_between apart_b v_name hb hv
    exact ⟨by rw [hb, List.append_nil], hv⟩
  · obtain rfl := nothing_between apart_a w_name ha hw
    exact ⟨by rw [ha, List.append_nil], hw.symm⟩

/-! ## What a search leaves behind -/

/-- What is known of a part of the text that has been searched, before the rest is. -/
structure Unmet (front s : List Char) : Prop where
  /-- No name begins within the piece of letters that goes on here. -/
  inside : ∀ c ∈ front.getLast?, isIdentPart c → ∀ x ∈ s.takeWhile isIdentPart, isIdentStart x = false
  /-- Right behind a name there is no letter, and no member that is called. -/
  behind_name : ∀ lead q, front = lead ++ q → IsName q → Apart lead →
    (∀ x ∈ s.head?, isIdentPart x = false) ∧ member? s = none
  /-- Behind the point behind a name there is no member that is called. -/
  behind_point : ∀ lead q, front = lead ++ (q ++ ['.']) → IsName q → Apart lead →
    member? ('.' :: s) = none

theorem unmet_nil (s : List Char) : Unmet [] s where
  inside _ hc := nomatch hc
  behind_name lead q same named _ :=
    absurd (List.append_eq_nil_iff.mp same.symm).2 named.ne_nil
  behind_point lead q same _ _ := by simp at same

/-- Nothing is left behind a mark that is neither a letter nor a point. -/
theorem unmet_of_mark (outside : isIdentPart x = false) (no_point : x ≠ '.') :
    Unmet (front ++ [x]) s where
  inside c hc letter := by
    rw [List.getLast?_concat, Option.mem_some_iff] at hc
    rw [← hc, outside] at letter
    cases letter
  behind_name lead q same named _ := by
    obtain ⟨q, y, rfl⟩ := List.eq_nil_or_concat' q |>.resolve_left named.ne_nil
    rw [← List.append_assoc] at same
    obtain ⟨-, rfl⟩ := List.append_singleton_inj.mp same
    rw [named.1 x (List.mem_append_right _ List.mem_cons_self)] at outside
    cases outside
  behind_point lead q same _ _ := by
    rw [← List.append_assoc] at same
    exact absurd (List.append_singleton_inj.mp same).2 no_point

/-- A name that is read begins a piece of letters. -/
theorem Unmet.apart (h : Unmet front (c :: s)) (first : isIdentStart c) : Apart front := by
  intro x hx
  by_contra letter
  have taken : c ∈ (c :: s).takeWhile isIdentPart := by
    rw [List.takeWhile_cons_of_pos (isIdentPart_of_isIdentStart first)]
    exact List.mem_cons_self
  rw [h.inside x hx (Bool.not_eq_false _ ▸ letter) c taken] at first
  cases first

/-- A character that cannot begin a name is passed over, if it begins no piece of letters in which a
name begins. -/
theorem Unmet.pass (h : Unmet front (c :: s)) (other : ¬isIdentStart c)
    (plain : ∀ run ∈ Text.runs isIdentPart (front ++ c :: s),
      (∃ x ∈ run.head?, isIdentStart x = false) → ∀ x ∈ run, isIdentStart x = false) :
    Unmet (front ++ [c]) s where
  inside x hx letter := by
    rw [List.getLast?_concat, Option.mem_some_iff] at hx
    subst hx
    have taken : (c :: s).takeWhile isIdentPart = c :: s.takeWhile isIdentPart :=
      List.takeWhile_cons_of_pos letter
    refine fun y hy => ?_
    have within : y ∈ (c :: s).takeWhile isIdentPart := taken ▸ List.mem_cons_of_mem c hy
    by_cases apart : Apart front
    · -- the piece of letters begins here
      have run : (c :: s).takeWhile isIdentPart ∈ Text.runs isIdentPart
          (front ++ ((c :: s).takeWhile isIdentPart ++ (c :: s).dropWhile isIdentPart)) :=
        Text.mem_runs (taken ▸ List.cons_ne_nil _ _) (fun z hz => List.mem_takeWhile_imp hz) apart
          (Text.head?_dropWhile_outside isIdentPart (c :: s))
      rw [List.takeWhile_append_dropWhile] at run
      refine plain _ run ⟨c, ?_, Bool.eq_false_iff.mpr other⟩ y within
      rw [taken]
      rfl
    · obtain ⟨z, glued⟩ := not_forall.mp apart
      obtain ⟨hz, letter'⟩ := Classical.not_imp.mp glued
      exact h.inside z hz (Bool.not_eq_false _ ▸ letter') y within
  behind_name lead q same named apart := by
    obtain ⟨q, y, rfl⟩ := List.eq_nil_or_concat' q |>.resolve_left named.ne_nil
    rw [← List.append_assoc] at same
    obtain ⟨front_eq, rfl⟩ := List.append_singleton_inj.mp same
    have letter := named.1 c (List.mem_append_right _ List.mem_cons_self)
    cases q with
    | nil =>
      obtain ⟨-, z, hz, first⟩ := named
      exact absurd (Option.mem_some_iff.mp hz ▸ first) other
    | cons z q =>
      -- the name would have ended before its last character
      have named' : IsName (z :: q) :=
        ⟨fun v hv => named.1 v (List.mem_append_left _ hv), named.2⟩
      have outside := (h.behind_name lead _ front_eq named' apart).1 c rfl
      rw [letter] at outside
      cases outside
  behind_point lead q same named apart := by
    rw [← List.append_assoc] at same
    obtain ⟨front_eq, rfl⟩ := List.append_singleton_inj.mp same
    exact (h.behind_name lead q front_eq named apart).2

/-- A name is passed over if there is no member behind it that is called. -/
theorem unmet_of_name (letters : ∀ x ∈ w, isIdentPart x) (some_text : w ≠ [])
    (ends : ∀ x ∈ s.head?, isIdentPart x = false) (no_member : member? s = none) :
    Unmet (front ++ w) s where
  inside _ _ _ x hx := by
    cases s with
    | nil => cases hx
    | cons y s =>
      rw [List.takeWhile_cons_of_neg (Bool.eq_false_iff.mp (ends y rfl))] at hx
      cases hx
  behind_name _ _ _ _ _ := ⟨ends, no_member⟩
  behind_point lead q same _ _ := by
    obtain ⟨w, y, rfl⟩ := List.eq_nil_or_concat' w |>.resolve_left some_text
    rw [← List.append_assoc, ← List.append_assoc] at same
    obtain ⟨-, rfl⟩ := List.append_singleton_inj.mp same
    have point := letters '.' (List.mem_append_right _ List.mem_cons_self)
    exact absurd point (by decide)

/-! ## The search -/

theorem word_dropWhile (c : Char) (s : List Char) :
    c :: s = (c :: s.takeWhile isIdentPart) ++ s.dropWhile isIdentPart := by
  rw [List.cons_append, List.takeWhile_append_dropWhile]

/-- A name that a search reaches is read as a whole. -/
theorem stands_word (h : Unmet front (c :: s)) (first : isIdentStart c) :
    Stands isIdentPart isIdentStart front (c :: s.takeWhile isIdentPart)
      (s.dropWhile isIdentPart) where
  letters := (isName_word first s).1
  first := (isName_word first s).2
  apart := h.apart first
  ends := Text.head?_dropWhile_outside isIdentPart s

theorem unstarted_of_gap {gap : List Char} (blank : ∀ c ∈ gap, isBlank c) :
    ∀ c ∈ gap ++ ['('], isIdentStart c = false := by
  refine List.forall_mem_append.mpr ⟨fun c hc => ?_, List.forall_mem_singleton.mpr (by decide)⟩
  by_contra first
  have letter := isIdentPart_of_isIdentStart (Bool.not_eq_false _ ▸ first)
  rw [isIdentPart_of_isBlank (blank c hc)] at letter
  cases letter

section Steps

variable {gap m : List Char} (stands : Stands isIdentPart isIdentStart front w behind)
  (here : whole = front ++ (w ++ behind)) (blank : ∀ c ∈ gap, isBlank c)

include stands here

theorem callsBehind_of_word (no_call : behindParenthesis? behind = none)
    (h : CallsBehind whole (front ++ w) calls) : CallsBehind whole front calls := by
  refine h.skip fun call inside near => ?_
  rcases inside.at_name here stands near with ⟨-, -, gap, rest, called, blank⟩ | far
  · rw [behindParenthesis?_iff.mpr ⟨gap, called, blank⟩] at no_call
    cases no_call
  · exact far

include blank

/-- A name in front of a parenthesis has no qualifier when a search reaches it. -/
theorem callsBehind_of_call (unmet : Unmet front (w ++ behind))
    (called : behind = gap ++ '(' :: rest)
    (h : CallsBehind whole (front ++ (w ++ (gap ++ ['(']))) calls) :
    CallsBehind whole front (⟨front, none, w⟩ :: calls) := by
  subst called
  have unqualified : ∀ q, none = some q ↔ ∃ lead, front = lead ++ (q ++ ['.']) ∧
      Stands isIdentPart isIdentStart lead q ['.'] := by
    refine fun q => ⟨nofun, fun ⟨lead, same, stands'⟩ => ?_⟩
    have none_met := unmet.behind_point lead q same stands'.isName stands'.apart
    rw [member?_iff.mpr ⟨gap, rfl, stands.isName, blank⟩] at none_met
    cases none_met
  have inside : Call.In isIdentPart isIdentStart whole ⟨front, none, w⟩ :=
    ⟨⟨gap, rest, here, blank, stands⟩, unqualified⟩
  refine h.cons inside (List.prefix_refl front) ?_ fun other inside' near => ?_
  · simp only [List.length_append, List.length_cons]
    omega
  · rcases inside'.at_name here stands near with ⟨same_front, same_name, -⟩ | far
    · exact .inl (inside.eq_of_same inside' same_front same_name)
    · have here' : whole = (front ++ w) ++ ((gap ++ ['(']) ++ rest) := by simp [here]
      have past := inside'.past_unstarted here' (unstarted_of_gap blank) far
      rw [List.append_assoc] at past
      exact .inr past

/-- A member behind a name is called with that name as its qualifier. -/
theorem callsBehind_of_member (named : IsName m) (called : behind = '.' :: (m ++ (gap ++ '(' :: rest)))
    (h : CallsBehind whole (front ++ (w ++ '.' :: (m ++ (gap ++ ['('])))) calls) :
    CallsBehind whole front (⟨front ++ (w ++ ['.']), some w, m⟩ :: calls) := by
  subst called
  have qualified : ∀ q, some w = some q ↔ ∃ lead, front ++ (w ++ ['.']) = lead ++ (q ++ ['.']) ∧
      Stands isIdentPart isIdentStart lead q ['.'] := by
    refine fun q => ⟨fun same => ?_, fun ⟨lead, same, stands'⟩ => ?_⟩
    · obtain rfl := Option.some.inj same
      have ends : ∀ c ∈ ['.'].head?, isIdentPart c = false := by
        intro c hc
        obtain rfl := Option.some.inj hc
        decide
      exact ⟨front, rfl, stands.letters, stands.first, stands.apart, ends⟩
    · rw [← List.append_assoc, ← List.append_assoc] at same
      rw [(eq_of_last_name stands.apart stands'.apart stands.isName stands'.isName
        (List.append_cancel_right same)).2]
  have stands' : Stands isIdentPart isIdentStart (front ++ (w ++ ['.'])) m (gap ++ '(' :: rest) := by
    refine ⟨named.1, named.2, fun x hx => ?_, not_isIdentPart_of_gap blank⟩
    rw [← List.append_assoc, List.getLast?_concat, Option.mem_some_iff] at hx
    exact hx ▸ by decide
  have here₁ : whole = (front ++ w) ++ (['.'] ++ (m ++ (gap ++ '(' :: rest))) := by simp [here]
  have here₂ : whole = (front ++ (w ++ ['.'])) ++ (m ++ (gap ++ '(' :: rest)) := by simp [here]
  have here₃ : whole = (front ++ (w ++ ['.']) ++ m) ++ ((gap ++ ['(']) ++ rest) := by simp [here]
  have inside : Call.In isIdentPart isIdentStart whole ⟨front ++ (w ++ ['.']), some w, m⟩ :=
    ⟨⟨gap, rest, here₂, blank, stands'⟩, qualified⟩
  refine h.cons inside (List.prefix_append _ _) ?_ fun other inside' near => ?_
  · simp only [List.length_append, List.length_cons]
    omega
  · rcases inside'.at_name here stands near with ⟨-, -, gap', rest', parenthesis, blank'⟩ | far
    · -- a point follows the name, so the name itself is not called
      cases gap' with
      | nil => cases parenthesis
      | cons x gap' =>
        obtain ⟨rfl, -⟩ := List.cons.inj parenthesis
        exact absurd (blank' _ List.mem_cons_self) (by decide)
    · have point : ∀ c ∈ ['.'], isIdentStart c = false := by decide
      have far := inside'.past_unstarted here₁ point far
      rw [List.append_assoc] at far
      rcases inside'.at_name here₂ stands' far with ⟨same_front, same_name, -⟩ | far
      · exact .inl (inside.eq_of_same inside' same_front same_name)
      · have past := inside'.past_unstarted here₃ (unstarted_of_gap blank) far
        refine .inr ?_
        simpa using past

end Steps

/-- A search behind a part of a text finds the calls that stand there. -/
theorem exists_calls
    (plain : ∀ run ∈ Text.runs isIdentPart whole,
      (∃ c ∈ run.head?, isIdentStart c = false) → ∀ c ∈ run, isIdentStart c = false)
    (here : whole = front ++ s) (unmet : Unmet front s) :
    ∃ calls, callSites s = calls.flatMap Call.names ∧ CallsBehind whole front calls := by
  have mark : isIdentPart '(' = false ∧ '(' ≠ '.' := by decide
  fun_induction callSites s generalizing front with
  | case1 =>
    refine ⟨[], rfl, List.Pairwise.nil, fun call =>
      ⟨fun listed => absurd listed List.not_mem_nil, fun there => ?_⟩⟩
    obtain ⟨inside, near⟩ := there
    obtain ⟨a, gap, rest, -, none_left, -⟩ := (here ▸ inside).exists_behind near
    simp at none_left
  | case2 c s first word m rest found =>
    rename_i ih
    obtain ⟨gap, called, named, blank⟩ := member?_iff.mp found
    have here' : whole = front ++ (word ++ s.dropWhile isIdentPart) := here.trans
      (congrArg (front ++ ·) (word_dropWhile c s))
    have piece : front ++ (word ++ '.' :: (m ++ (gap ++ ['(']))) =
        (front ++ (word ++ '.' :: (m ++ gap))) ++ ['('] := by simp
    have split : whole = front ++ (word ++ '.' :: (m ++ (gap ++ ['(']))) ++ rest := by
      simp [here', called]
    obtain ⟨calls, read, others⟩ := ih split (piece ▸ unmet_of_mark mark.1 mark.2)
    refine ⟨_, ?_, callsBehind_of_member (stands_word unmet first) here' blank named called others⟩
    rw [read]
    rfl
  | case3 c s first word none_member rest found =>
    rename_i ih
    obtain ⟨gap, called, blank⟩ := behindParenthesis?_iff.mp found
    have here' : whole = front ++ (word ++ s.dropWhile isIdentPart) := here.trans
      (congrArg (front ++ ·) (word_dropWhile c s))
    have piece : front ++ (word ++ (gap ++ ['('])) = (front ++ (word ++ gap)) ++ ['('] := by simp
    have split : whole = front ++ (word ++ (gap ++ ['('])) ++ rest := by simp [here', called]
    obtain ⟨calls, read, others⟩ := ih split (piece ▸ unmet_of_mark mark.1 mark.2)
    refine ⟨_, ?_, callsBehind_of_call (stands_word unmet first) here' blank
      (word_dropWhile c s ▸ unmet) called others⟩
    rw [read]
    rfl
  | case4 c s first none_member none_behind ih =>
    have stands := stands_word unmet first
    have here' := here.trans (congrArg (front ++ ·) (word_dropWhile c s))
    obtain ⟨calls, read, others⟩ := ih (here'.trans (List.append_assoc _ _ _).symm)
      (unmet_of_name stands.letters (List.cons_ne_nil _ _) stands.ends none_member)
    exact ⟨calls, read, callsBehind_of_word stands here' none_behind others⟩
  | case5 c s other ih =>
    have here' : whole = front ++ ([c] ++ s) := here
    obtain ⟨calls, read, others⟩ := ih (here.trans (by simp)) (unmet.pass other (here ▸ plain))
    refine ⟨calls, read, others.skip fun call inside near => ?_⟩
    exact inside.past_unstarted here'
      (List.forall_mem_singleton.mpr (Bool.eq_false_iff.mpr other)) near

/-! ## ASCII texts -/

theorem classes_of_ascii : ∀ n < 0x80, isIdentPart (Char.ofNat n) = isNameChar (Char.ofNat n) ∧
    (isNameChar (Char.ofNat n) → isIdentStart (Char.ofNat n) = !isAsciiDigit (Char.ofNat n)) := by
  decide +kernel

/-- Names stand alike for classes that agree on the text. -/
theorem Stands.congr (same : ∀ c ∈ front ++ (name ++ behind), part c = part' c)
    (same_start : ∀ c ∈ name, part c → start c = start' c)
    (h : Stands part start front name behind) : Stands part' start' front name behind := by
  obtain ⟨before, others⟩ := List.forall_mem_append.mp same
  obtain ⟨within, after⟩ := List.forall_mem_append.mp others
  refine ⟨fun c hc => within c hc ▸ h.letters c hc, ?_, ?_, ?_⟩
  · obtain ⟨c, hc, first⟩ := h.first
    have mem := List.mem_of_mem_head? hc
    exact ⟨c, hc, same_start c mem (h.letters c mem) ▸ first⟩
  · exact fun c hc => before c (List.mem_of_getLast? hc) ▸ h.apart c hc
  · exact fun c hc => after c (List.mem_of_mem_head? hc) ▸ h.ends c hc

theorem Call.In.congr (same : ∀ c ∈ s, part c = part' c)
    (same_start : ∀ c ∈ s, part c → start c = start' c) (h : call.In part start s) :
    call.In part' start' s := by
  have same_start' : ∀ c ∈ s, part' c → start' c = start c := fun c hc letter =>
    (same_start c hc (same c hc ▸ letter)).symm
  obtain ⟨gap, rest, here, blank, stands⟩ := h.called
  have in_front : ∀ c ∈ call.front, c ∈ s := fun c hc => here ▸ List.mem_append_left _ hc
  have in_name : ∀ c ∈ call.name, c ∈ s := fun c hc =>
    here ▸ List.mem_append_right _ (List.mem_append_left _ hc)
  refine ⟨⟨gap, rest, here, blank, stands.congr (here ▸ same)
    fun c hc => same_start c (in_name c hc)⟩, fun q => ?_⟩
  rw [h.qualified]
  refine exists_congr fun lead => and_congr_right fun split => ?_
  rw [split] at in_front
  have in_qualifier : ∀ c ∈ q, c ∈ s := fun c hc => in_front c (by simp [hc])
  exact ⟨.congr (fun c hc => same c (in_front c hc)) fun c hc => same_start c (in_qualifier c hc),
    .congr (fun c hc => (same c (in_front c hc)).symm)
      fun c hc => same_start' c (in_qualifier c hc)⟩

/-- The names of call sites are those of the calls that stand in the text, in their order: each name in
front of a parenthesis, behind the same name with its qualifier if it has one. -/
theorem call_sites_are_whole_names (s : List Char) (ascii : ∀ c ∈ s, c.val.toNat < 0x80)
    (plain : ∀ run ∈ Text.runs isNameChar s,
      (∃ c ∈ run.head?, isAsciiDigit c) → ∀ c ∈ run, isAsciiDigit c) :
    ∃ calls : List Call, callSites s = calls.flatMap Call.names ∧
      calls.Pairwise (fun a b => a.front.length < b.front.length) ∧
      ∀ call : Call, call ∈ calls ↔ call.In isNameChar (fun c => !isAsciiDigit c) s := by
  have classes : ∀ c ∈ s, isIdentPart c = isNameChar c ∧
      (isNameChar c → isIdentStart c = !isAsciiDigit c) := fun c hc => by
    have known := classes_of_ascii c.val.toNat (ascii c hc)
    rwa [show Char.ofNat c.val.toNat = c from Char.ofNat_toNat c] at known
  have same : ∀ c ∈ s, isIdentPart c = isNameChar c := fun c hc => (classes c hc).1
  have same_start : ∀ c ∈ s, isIdentPart c → isIdentStart c = !isAsciiDigit c :=
    fun c hc letter => (classes c hc).2 (same c hc ▸ letter)
  have unstarted : ∀ run ∈ Text.runs isIdentPart s,
      (∃ c ∈ run.head?, isIdentStart c = false) → ∀ c ∈ run, isIdentStart c = false := by
    rintro run mem ⟨c, hc, first⟩
    obtain ⟨a, b, here, some_run, letters, starts, ends⟩ := Text.exists_of_mem_runs mem
    have inside : ∀ x ∈ run, x ∈ s := fun x hx => by simp [here, hx]
    have starts' : ∀ x ∈ a.getLast?, isNameChar x = false := fun x hx =>
      same x (here ▸ List.mem_append_left _ (List.mem_of_getLast? hx)) ▸ starts x hx
    have ends' : ∀ x ∈ b.head?, isNameChar x = false := fun x hx =>
      same x (by simp [here, List.mem_of_mem_head? hx]) ▸ ends x hx
    have digits := plain run (here ▸ Text.mem_runs some_run
      (fun x hx => same x (inside x hx) ▸ letters x hx) starts' ends') ⟨c, hc, ?_⟩
    · intro x hx
      rw [same_start x (inside x hx) (letters x hx), digits x hx]
      rfl
    · have head := List.mem_of_mem_head? hc
      rw [same_start c (inside c head) (letters c head)] at first
      simpa using first
  obtain ⟨calls, read, found⟩ := exists_calls unstarted (List.nil_append s).symm (unmet_nil s)
  refine ⟨calls, read, found.ordered, fun call => ?_⟩
  rw [found.mem_iff, and_iff_left List.nil_prefix]
  refine ⟨.congr same same_start, .congr (fun c hc => (same c hc).symm) fun c hc letter => ?_⟩
  exact ((classes c hc).2 letter).symm

/-- In a chain only the last qualifier counts, and a number before a point is none. -/
theorem call_sites_are_whole_names_chain :
    let s := "a.b.$c (12.d(e1))".toList
    callSites s = ["b.$c".toList, "$c".toList, "d".toList] ∧
      ∃ calls : List Call, callSites s = calls.flatMap Call.names ∧
        calls.Pairwise (fun a b => a.front.length < b.front.length) ∧
        ∀ call : Call, call ∈ calls ↔ call.In isNameChar (fun c => !isAsciiDigit c) s := by
  intro s
  have digits : ∀ run ∈ Text.runs isNameChar s,
      run.head?.any isAsciiDigit = true → ∀ c ∈ run, isAsciiDigit c = true := by
    decide +kernel
  have plain : ∀ run ∈ Text.runs isNameChar s,
      (∃ c ∈ run.head?, isAsciiDigit c) → ∀ c ∈ run, isAsciiDigit c := by
    intro run mem ⟨c, hc, first⟩
    apply digits run mem
    rw [Option.mem_def.mp hc]
    exact first
  exact ⟨by decide +kernel, call_sites_are_whole_names s (by decide +kernel) plain⟩

end CodeAtlas.Source
