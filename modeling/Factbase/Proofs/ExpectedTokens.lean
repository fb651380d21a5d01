import Factbase.Proofs.QueryErrors

/-! # Tokens that are expected

An error about a query text names the kinds of token that would do instead. What a part refuses with
names only what the part takes (`Part.kinds_of_refuse`). After a complete query, the keywords of all
four parts at its end are named, also those that the query is beyond: such a part is left over only
while nothing is read from it on (`mem_left_iff`).

`mem_expected_iff` says which names are right. -/

namespace Factbase.Find

open Reader

variable {k : TokenKind} {parts left new : List Part} {tokens rest used : List Token}
  {wanted : Wanted}

/-! ## What would do instead -/

/-- The name that messages about what would do have for a kind of token. -/
def TokenKind.category (k : TokenKind) : String :=
  match k with
  | .operator _ => "comparison"
  | _ => k.describe

/-- Where the reading of a query stops, if it does: how many tokens are before that. -/
def stopsAt? (tokens : List Token) : Option Nat :=
  match query tokens with
  | .ok _ => none
  | .error r => some (tokens.length - r.rest.length)

/-- Whether a token is read after some tokens: the reading does not stop at it. -/
def IsReadAfter (before : List Token) (t : Token) : Prop :=
  ∀ j, stopsAt? (before ++ [t, .finish .start]) = some j → before.length < j

/-- A token is read after others when the parts take it, or when it is the end and none is
missing. -/
theorem isReadAfter_iff {before : List Token} {t : Token}
    (hfeed : feed Part.start before = some left) :
    IsReadAfter before t ↔ shift t.kind left ≠ none ∨ t.kind = .finish ∧ Settled .finish left := by
  constructor
  · intro h
    cases hq : query (before ++ [t, .finish .start]) with
    | ok q => exact settled_of_ok hq hfeed
    | error r =>
      obtain ⟨used, left', heq, hfeed', -⟩ := exists_feed_of_error hq
      refine .inl fun hnone => ?_
      have hnone' : shift (kind [t, .finish .start]) left = none := hnone
      have hle := length_le_of_feed hfeed hnone' hfeed' heq
      have hlt := h ((before ++ [t, .finish .start]).length - r.rest.length)
        (by simp only [stopsAt?, hq])
      have hlength := congrArg List.length heq
      simp only [List.length_append] at hlength hlt
      omega
  · intro h j hj
    cases hq : query (before ++ [t, .finish .start]) with
    | ok q => simp [stopsAt?, hq] at hj
    | error r =>
      obtain ⟨used, left', heq, hfeed', hstuck⟩ := exists_feed_of_error hq
      simp only [stopsAt?, hq, Option.some.injEq] at hj
      have hlength := congrArg List.length heq
      simp only [List.length_append] at hlength hj
      rcases h with hshift | ⟨ht, hsettled⟩
      · obtain ⟨next, hnext⟩ := Option.ne_none_iff_exists'.1 hshift
        have htaken : feed Part.start (before ++ [t]) = some next := by
          rw [feed_tokens_append, hfeed, Option.bind_some, feed, hnext]
          rfl
        have hsplit : used ++ r.rest = (before ++ [t]) ++ [.finish .start] := by
          rw [← heq, List.append_assoc]
          rfl
        have hle := length_le_of_feed hfeed' hstuck.shift_eq htaken hsplit
        rw [List.length_append, List.length_singleton] at hle
        omega
      · obtain ⟨q, hok⟩ := exists_query_eq_ok hfeed hsettled ht [.finish .start]
        rw [hok] at hq
        simp at hq

namespace Part

/-- A kind of token of each category that a part takes. -/
def samples : Part → List TokenKind
  | .word w => [.keyword w]
  | .entityType => [.ident ""]
  | .variable => [.var ""]
  | .attrName => [.ident ""]
  | .number => [.number 0]
  | .operand _ =>
    [.text "", .number 0, .keyword .TRUE, .keyword .FALSE, .keyword .NULL, .var ""]
  | .containedText => [.text ""]
  | .pattern => [.regex "" ""]
  | .leftParen => [.leftParen]
  | .rightParen => [.rightParen]
  | .test =>
    [.operator .eq, .keyword .BETWEEN, .keyword .CONTAINS, .keyword .MATCHES, .keyword .IN]
  | .term => [.leftParen, .var "", .ident ""]
  | .limit => [.number 0]
  | .extra _ => []

theorem exists_predict_of_mem_samples {p : Part} :
    ∀ k ∈ p.samples, ∃ new, p.predict k = .take new := by
  have hzero : Number.whole? 0 = some (.ofNat 0) := by decide +kernel
  cases p <;> simp [samples, predict, Reader.operandOf?, hzero]

/-- What is wanted instead of a token is what the part takes. -/
theorem kinds_of_refuse {p : Part} {k : TokenKind} {wanted : Wanted}
    (h : p.predict k = .refuse wanted) : wanted.kinds = p.samples.map TokenKind.category := by
  cases p <;> simp only [predict] at h <;> repeat' split at h
  all_goals simp at h
  all_goals
    subst h
    rfl

end Part

/-- Parts take what would do instead of a token that they refuse. -/
theorem Refuses.exists_shift {name : String} (h : Refuses k parts wanted)
    (hname : name ∈ wanted.kinds) :
    ∃ t : Token, t.kind.category = name ∧ shift t.kind parts ≠ none := by
  obtain ⟨skipped, p, rest, rfl, hskipped, hp⟩ := h
  rw [Part.kinds_of_refuse hp, List.mem_map] at hname
  obtain ⟨k', hk', rfl⟩ := hname
  obtain ⟨new, hnew⟩ := Part.exists_predict_of_mem_samples k' hk'
  refine ⟨⟨k', [], .start⟩, rfl, ?_⟩
  dsimp only
  clear hk'
  induction skipped with
  | nil => simp [shift_of_take hnew]
  | cons p' skipped ih =>
    obtain ⟨⟨e, rfl⟩, hskipped'⟩ :=
      (List.forall_mem_cons.1 hskipped).imp_left Part.exists_extra_of_passes
    by_cases hopen : e.isOpened k' = true
    · have htake : (Part.extra e).predict k' = .take e.body := if_pos hopen
      simp [shift_of_take htake]
    · have hpass : (Part.extra e).passes k' = true := by simp [Part.passes, Part.predict, hopen]
      rw [List.cons_append, shift_of_pass hpass]
      exact ih hskipped'

/-- Parts that may all be left out take what announces one of them. -/
theorem shift_ne_none_iff (h : Settled k parts) {k' : TokenKind} :
    shift k' parts ≠ none ↔ ∃ e, Part.extra e ∈ parts ∧ e.isOpened k' = true := by
  induction parts with
  | nil => simp [shift]
  | cons p parts ih =>
    obtain ⟨⟨e, rfl⟩, hparts⟩ := (List.forall_mem_cons.1 h).imp_left Part.exists_extra_of_passes
    by_cases hopen : e.isOpened k' = true
    · have htake : (Part.extra e).predict k' = .take e.body := if_pos hopen
      simp [shift_of_take htake, hopen]
    · have hpass : (Part.extra e).passes k' = true := by simp [Part.passes, Part.predict, hopen]
      rw [shift_of_pass hpass, ih hparts]
      simp [hopen]

/-! ## Parts that keywords announce -/

/-- Whether an extra is one of those at the end of a query. -/
def Extra.isMain : Extra → Bool
  | .whereClause | .returnFields | .orderField | .limitNumber => true
  | _ => false

variable {e : Extra} {front back : List Part} {mid : List Token}

/-- No token brings in such a part. -/
theorem not_mem_of_predict {p : Part} (h : p.predict k = .take new) (he : e.isMain = true) :
    .extra e ∉ new := by
  cases p with
  | extra e' =>
    simp only [Part.predict] at h
    split at h
    · obtain rfl := Prediction.take.inj h
      cases e' <;> cases e <;> simp [Extra.body, Extra.isMain] at he ⊢
    · simp at h
  | _ =>
    simp only [Part.predict] at h
    repeat' split at h
    all_goals simp at h
    all_goals subst h
    all_goals cases e <;> simp [Extra.isMain] at he ⊢

theorem mem_of_shift (h : shift k parts = some new) (he : e.isMain = true)
    (hmem : .extra e ∈ new) : .extra e ∈ parts := by
  induction parts with
  | nil => simp [shift] at h
  | cons p parts ih =>
    cases hp : p.predict k with
    | take new' =>
      rw [shift_of_take hp, Option.some.injEq] at h
      rw [← h, List.mem_append] at hmem
      exact .tail _ (hmem.resolve_left (not_mem_of_predict hp he))
    | pass =>
      rw [shift_of_pass (by simp [Part.passes, hp])] at h
      exact .tail _ (ih h)
    | refuse wanted =>
      rw [shift_of_refuse hp] at h
      simp at h

theorem mem_of_feed (h : feed parts tokens = some left) (he : e.isMain = true)
    (hmem : .extra e ∈ left) : .extra e ∈ parts := by
  induction tokens generalizing parts with
  | nil =>
    obtain rfl : parts = left := by simpa [feed] using h
    exact hmem
  | cons t tokens ih =>
    rw [feed, Option.bind_eq_some_iff] at h
    obtain ⟨next, hnext, hrest⟩ := h
    exact mem_of_shift hnext he (ih hrest)

/-- Such a part is gone once a token is taken by it or by a later part. -/
theorem not_mem_of_shift (h : shift k (.extra e :: back) = some new) (he : e.isMain = true)
    (hback : .extra e ∉ back) : .extra e ∉ new := by
  by_cases hopen : e.isOpened k = true
  · have htake : (Part.extra e).predict k = .take e.body := if_pos hopen
    rw [shift_of_take htake, Option.some.injEq] at h
    rw [← h, List.mem_append]
    exact not_or.2 ⟨not_mem_of_predict htake he, hback⟩
  · have hpass : (Part.extra e).passes k = true := by simp [Part.passes, Part.predict, hopen]
    rw [shift_of_pass hpass] at h
    exact fun hmem => hback (mem_of_shift h he hmem)

/-- Such a part is left over as long as nothing is read from it on. -/
theorem mem_left_iff {IsLeft : List Part → Prop} (he : e.isMain = true) (hback : .extra e ∉ back)
    (hfront : Reaches front tokens mid (Settled (kind mid)))
    (hrest : Reaches (.extra e :: back) mid rest IsLeft) (htokens : tokens = used ++ rest)
    (hfeed : feed (front ++ .extra e :: back) used = some left) :
    .extra e ∈ left ↔ mid = rest := by
  obtain ⟨used₁, left₁, heq, hfeed₁, hsettled⟩ := hfront
  obtain ⟨used₂, left₂, heq₂, hfeed₂, -⟩ := hrest
  obtain rfl : used = used₁ ++ used₂ := by
    rw [heq₂, ← List.append_assoc] at heq
    exact List.append_cancel_right (htokens.symm.trans heq)
  have hfirst := feed_append hfeed₁ (.extra e :: back)
  rw [feed_tokens_append, hfirst, Option.bind_some] at hfeed
  cases used₂ with
  | nil =>
    obtain rfl : left₁ ++ .extra e :: back = left := by simpa [feed] using hfeed
    simpa using heq₂
  | cons t used₂ =>
    rw [heq₂, List.cons_append, kind_cons] at hsettled
    rw [feed, shift_append_of_settled hsettled] at hfeed
    obtain ⟨next, hnext, hmore⟩ := Option.bind_eq_some_iff.1 hfeed
    have hnot := not_mem_of_shift hnext he hback
    have hne : mid ≠ rest := by
      intro h
      have hlength := congrArg List.length (heq₂.symm.trans h)
      simp at hlength
      omega
    exact iff_of_false (fun hmem => hnot (mem_of_feed hmore he hmem)) hne

/-- A part that a keyword announces is read where there is something for it, and only there. -/
theorem eq_or_lt_of_optional {α : Type} {p : Reader α} {ps : List Part} {w : Keyword}
    {x : Option α} (hp : ∀ tokens, Follows p ps tokens)
    (h : Reader.optional w p tokens = .ok (x, rest)) :
    x.isSome = false ∧ tokens = rest ∨ x.isSome = true ∧ rest.length < tokens.length := by
  by_cases hk : kind tokens = .keyword w
  · cases tokens with
    | nil => simp at hk
    | cons t tokens =>
      simp only [Reader.optional, afterKeyword?, hk, if_true, List.tail_cons, bind_eq_ok] at h
      obtain ⟨⟨a, rest'⟩, ha, h⟩ := h
      obtain ⟨rfl, rfl⟩ : some a = x ∧ rest' = rest := by
        simpa [pure, Except.pure] using h
      have hle := (hp tokens).length_le ha
      exact .inr ⟨rfl, by rw [List.length_cons]; omega⟩
  · simp only [Reader.optional, afterKeyword?, hk, if_false, Except.ok.injEq, Prod.mk.injEq] at h
    obtain ⟨rfl, rfl⟩ := h
    exact .inl ⟨rfl, rfl⟩

theorem exists_eq_ok_of_optional {α : Type} {p : Reader α} {w : Keyword} {a : α}
    (h : Reader.optional w p tokens = .ok (some a, rest)) :
    ∃ tokens', p tokens' = .ok (a, rest) := by
  simp only [Reader.optional] at h
  split at h
  · next rest' _ =>
    simp only [bind_eq_ok] at h
    obtain ⟨⟨a', rest''⟩, ha, h⟩ := h
    obtain ⟨rfl, rfl⟩ : a' = a ∧ rest'' = rest := by simpa [pure, Except.pure] using h
    exact ⟨rest', ha⟩
  · simp at h

theorem isEmpty_of_commaSeparated {α : Type} {element : Reader α} {as : List α}
    (h : commaSeparated element tokens = .ok (as, rest)) : as.isEmpty = false := by
  simp only [commaSeparated, bind_eq_ok] at h
  obtain ⟨⟨a, rest₁⟩, -, ⟨as', rest₂⟩, -, h⟩ := h
  obtain ⟨rfl, rfl⟩ : a :: as' = as ∧ rest₂ = rest := by simpa [pure, Except.pure] using h
  rfl

/-- Whether a query has the part that a keyword announces, or a later one. -/
def Query.isBeyond (q : Query) : Keyword → Bool
  | .WHERE => q.clause.isSome || !q.returns.isEmpty || q.sortField.isSome || q.limit.isSome
  | .RETURN => !q.returns.isEmpty || q.sortField.isSome || q.limit.isSome
  | .ORDER => q.sortField.isSome || q.limit.isSome
  | .LIMIT => q.limit.isSome
  | _ => false

theorem Reader.Reaches.trans {ps qs : List Part} (h : Reaches ps tokens mid (Settled (kind mid)))
    (h' : Reaches qs mid rest (Settled (kind rest))) :
    Reaches (ps ++ qs) tokens rest (Settled (kind rest)) :=
  h.append h' fun _ _ => Settled.append

/-- Parts one after the other are all left out when the first is, and the others are. -/
theorem eq_iff_of_step {x y : Bool} {a b c : List Token}
    (h : x = false ∧ a = b ∨ x = true ∧ b.length < a.length)
    (hb : (b = c ↔ y = false) ∧ c.length ≤ b.length) :
    (a = c ↔ (x || y) = false) ∧ c.length ≤ a.length := by
  rcases h with ⟨rfl, rfl⟩ | ⟨rfl, hlt⟩
  · simpa using hb
  · have hne : a ≠ c := by
      rintro rfl
      omega
    exact ⟨by simpa using hne, by omega⟩

/-- What is left over after a query shows which of its parts are written. -/
theorem mem_left_of_sentence {q : Query} (h : sentence tokens = .ok (q, rest))
    (htokens : tokens = used ++ rest) (hfeed : feed Part.start used = some left) :
    (.extra .whereClause ∈ left ↔ q.isBeyond .WHERE = false) ∧
    (.extra .returnFields ∈ left ↔ q.isBeyond .RETURN = false) ∧
    (.extra .orderField ∈ left ↔ q.isBeyond .ORDER = false) ∧
    (.extra .limitNumber ∈ left ↔ q.isBeyond .LIMIT = false) := by
  simp only [sentence, andThen, bind_eq_ok] at h
  obtain ⟨⟨x, rest₀⟩, h₀, ⟨c, rest₁⟩, h₁, ⟨r, rest₂⟩, h₂, ⟨s, rest₃⟩, h₃, ⟨l, rest₄⟩, h₄, h⟩ := h
  obtain ⟨rfl, rfl⟩ : _ = q ∧ rest₄ = rest := by simpa [give] using h
  have reach₀ := (follows_of_ok h₀).1 (follows_opening _)
  have reach₁ := (follows_of_ok h₁).1 (follows_where _)
  have reach₂ := (follows_of_ok h₂).1 (follows_return _)
  have reach₃ := (follows_of_ok h₃).1 (follows_order _)
  have reach₄ := (follows_of_ok h₄).1 (follows_limitNumber _)
  have opt₁ := eq_or_lt_of_optional follows_clause h₁
  have opt₂ := eq_or_lt_of_optional follows_fields h₂
  have opt₃ := eq_or_lt_of_optional follows_sortField h₃
  have opt₄ := eq_or_lt_of_optional follows_limit h₄
  have hlimit := mem_left_iff rfl (by simp) (((reach₀.trans reach₁).trans reach₂).trans reach₃)
    reach₄ htokens hfeed
  have horder := mem_left_iff rfl (by simp) ((reach₀.trans reach₁).trans reach₂)
    (reach₃.trans reach₄) htokens hfeed
  have hreturn := mem_left_iff rfl (by simp) (reach₀.trans reach₁)
    (reach₂.trans (reach₃.trans reach₄)) htokens hfeed
  have hwhere := mem_left_iff rfl (by simp) reach₀
    (reach₁.trans (reach₂.trans (reach₃.trans reach₄))) htokens hfeed
  have hreturns : (!(r.getD []).isEmpty) = r.isSome := by
    cases r with
    | none => rfl
    | some fields =>
      obtain ⟨_, hfields⟩ := exists_eq_ok_of_optional h₂
      simp [isEmpty_of_commaSeparated hfields]
  have last : (rest₄ = rest₄ ↔ false = false) ∧ rest₄.length ≤ rest₄.length := by simp
  have step₄ := eq_iff_of_step opt₄ last
  have step₃ := eq_iff_of_step opt₃ step₄
  have step₂ := eq_iff_of_step opt₂ step₃
  have step₁ := eq_iff_of_step opt₁ step₂
  rw [hwhere, hreturn, horder, hlimit, step₁.1, step₂.1, step₃.1, step₄.1]
  simp only [Query.isBeyond, hreturns, Bool.or_false, Bool.or_assoc, and_self]

/-! ## The kinds of token that are named as expected -/

theorem Keyword.ofWord?_name (w : Keyword) : Keyword.ofWord? w.name.toList = some w := by
  cases w <;> decide +kernel

theorem Keyword.name_injective {w w' : Keyword} (h : w.name = w'.name) : w = w' := by
  have hword := congrArg (fun name => Keyword.ofWord? name.toList) h
  simpa [Keyword.ofWord?_name] using hword

/-- The name of a keyword is the category of that keyword only. -/
theorem TokenKind.category_eq_name {w : Keyword} : k.category = w.name ↔ k = .keyword w := by
  constructor
  · intro h
    cases k with
    | keyword w' => exact congrArg _ (Keyword.name_injective h)
    | _ =>
      simp only [category, describe] at h
      cases w <;> exact absurd h (by decide)
  · rintro rfl
    rfl

/-- What a keyword announces can be read where it is left over. -/
theorem exists_isReadAfter_iff {before : List Token} (hfeed : feed Part.start before = some left)
    (hsettled : Settled k left) {w : Keyword}
    (hopen : ∀ e', e'.isOpened (.keyword w) = true ↔ e' = e) :
    (∃ t : Token, t.kind.category = w.name ∧ IsReadAfter before t) ↔ .extra e ∈ left := by
  simp only [TokenKind.category_eq_name, isReadAfter_iff hfeed]
  constructor
  · rintro ⟨t, ht, hread⟩
    rw [ht, shift_ne_none_iff hsettled] at hread
    rcases hread with ⟨e', hmem, he'⟩ | ⟨hfinish, -⟩
    · exact (hopen e').1 he' ▸ hmem
    · simp at hfinish
  · intro hmem
    refine ⟨⟨.keyword w, [], .start⟩, rfl, .inl ?_⟩
    rw [shift_ne_none_iff hsettled]
    exact ⟨e, hmem, (hopen e).2 rfl⟩

/-- The end is left over where a query is read. -/
theorem sentence_eq_ok {q : Query} {before : List Token} {t : Token}
    (hfeed : feed Part.start before = some left) (ht : t.kind = .finish)
    (h : query (before ++ [t]) = .ok q) : sentence (before ++ [t]) = .ok (q, [t]) := by
  rw [query_eq, bind_eq_ok] at h
  obtain ⟨⟨q', rest⟩, hq, h⟩ := h
  obtain ⟨used, left', heq, hfeed', -⟩ := (follows_of_ok hq).1 (follows_sentence (before ++ [t]))
  dsimp only at h
  split at h
  · next hfinish =>
    obtain rfl : q' = q := by simpa [pure, Except.pure] using h
    have hnone : shift (kind rest) left' = none := by rw [hfinish, shift_finish]
    have hle := length_le_of_feed hfeed' hnone hfeed heq.symm
    have hge := length_le_of_finish hfeed' ht heq.symm
    obtain ⟨-, rfl⟩ := List.append_inj heq (by omega)
    exact hq
  · simp [reject] at h

/-- Each kind of token that an error names as expected would have been read there, unless it is the
keyword of a part that the query has already, or that has to come before a part that it has. -/
theorem mem_expected_iff {e : Error} {i : Nat} (h : Query.ofTokens tokens = .error e)
    (hi : stopsAt? tokens = some i) {name : String} (hname : name ∈ e.expected) :
    (∃ t : Token, t.kind.category = name ∧ IsReadAfter (tokens.take i) t) ↔
      ∀ q w, Query.ofTokens (tokens.take i ++ [.finish .start]) = .ok q → w.name = name →
        q.isBeyond w = false := by
  obtain ⟨r, hr, rfl⟩ := ofTokens_eq_error.1 h
  obtain ⟨before, left, rfl, hfeed, hstuck⟩ := exists_feed_of_error hr
  have hbefore : (before ++ r.rest).take i = before := by
    simp only [stopsAt?, hr, Option.some.injEq, List.length_append] at hi
    rw [← hi, Nat.add_sub_cancel]
    simp
  have hkinds : name ∈ r.wanted.kinds := hname
  rw [hbefore]
  rcases hstuck with hrefuse | ⟨hsettled, -, hwanted⟩
  · refine iff_of_true ?_ fun q w hq => ?_
    · obtain ⟨t, ht, hshift⟩ := hrefuse.exists_shift hkinds
      exact ⟨t, ht, (isReadAfter_iff hfeed).2 (.inl hshift)⟩
    · rcases settled_of_ok (ofTokens_eq_ok.1 hq) hfeed with hshift | ⟨-, hsettled⟩
      · exact absurd (shift_finish left) hshift
      · exact absurd hrefuse hsettled.not_refuses
  · have hfinish : Settled .finish left := by
      intro p hp
      obtain ⟨e, rfl⟩ := Part.exists_extra_of_passes (hsettled p hp)
      cases e <;> rfl
    obtain ⟨q, hq⟩ := exists_query_eq_ok (t := .finish .start) hfeed hfinish rfl []
    have hright : (∀ q w, Query.ofTokens (before ++ [.finish .start]) = .ok q → w.name = name →
        q.isBeyond w = false) ↔ ∀ w : Keyword, w.name = name → q.isBeyond w = false := by
      refine ⟨fun h w => h q w (ofTokens_eq_ok.2 hq), fun h q' w hq' => ?_⟩
      obtain rfl : q = q' := Except.ok.inj (hq.symm.trans (ofTokens_eq_ok.1 hq'))
      exact h w
    rw [hright]
    obtain ⟨hwhere, hreturn, horder, hlimit⟩ :=
      mem_left_of_sentence (sentence_eq_ok hfeed rfl hq) rfl hfeed
    have hmain : ∀ (w : Keyword) (e : Extra), (∀ e', e'.isOpened (.keyword w) = true ↔ e' = e) →
        (Part.extra e ∈ left ↔ q.isBeyond w = false) →
        ((∃ t : Token, t.kind.category = w.name ∧ IsReadAfter before t) ↔
          ∀ w' : Keyword, w'.name = w.name → q.isBeyond w' = false) := by
      intro w e hopen hleft
      rw [exists_isReadAfter_iff hfeed hsettled hopen, hleft]
      exact ⟨fun h w' hw' => Keyword.name_injective hw' ▸ h, fun h => h w rfl⟩
    rw [hwanted] at hkinds
    simp only [Wanted.kinds, List.mem_cons, List.not_mem_nil, or_false] at hkinds
    rcases hkinds with rfl | rfl | rfl | rfl | rfl
    · exact hmain .WHERE .whereClause (fun e' => by cases e' <;> simp [Extra.isOpened]) hwhere
    · exact hmain .RETURN .returnFields (fun e' => by cases e' <;> simp [Extra.isOpened]) hreturn
    · exact hmain .ORDER .orderField (fun e' => by cases e' <;> simp [Extra.isOpened]) horder
    · exact hmain .LIMIT .limitNumber (fun e' => by cases e' <;> simp [Extra.isOpened]) hlimit
    · refine iff_of_true ⟨.finish .start, rfl, ?_⟩ fun w hw => ?_
      · exact (isReadAfter_iff hfeed).2 (.inr ⟨rfl, hfinish⟩)
      · cases w <;> exact absurd hw (by decide)

/-- After a limit, the end is still expected, and would have been read. -/
theorem mem_expected_trailing : Query.ofTokens trailing = .error trailingError ∧
    stopsAt? trailing = some 6 ∧ "end of input" ∈ trailingError.expected ∧
    ((∃ t : Token, t.kind.category = "end of input" ∧ IsReadAfter (trailing.take 6) t) ↔
      ∀ q w, Query.ofTokens (trailing.take 6 ++ [.finish .start]) = .ok q →
        w.name = "end of input" → q.isBeyond w = false) := by
  have hi : stopsAt? trailing = some 6 := by decide +kernel
  have hmem : "end of input" ∈ trailingError.expected := by decide
  exact ⟨ofTokens_trailing, hi, hmem, mem_expected_iff ofTokens_trailing hi hmem⟩

/-- A token too many after a limit: the error names `WHERE`, which would not have been read. -/
theorem not_mem_expected : Query.ofTokens trailing = .error trailingError ∧
    stopsAt? trailing = some 6 ∧ "WHERE" ∈ trailingError.expected ∧
    ¬ ∃ t : Token, t.kind.category = "WHERE" ∧ IsReadAfter (trailing.take 6) t := by
  refine ⟨ofTokens_trailing, by decide +kernel, by decide, ?_⟩
  have hfeed : feed Part.start (trailing.take 6) = some [] := by decide +kernel
  have hsettled : Settled .finish [] := by simp [Settled]
  have hopen : ∀ e : Extra, e.isOpened (.keyword .WHERE) = true ↔ e = .whereClause := by
    intro e
    cases e <;> simp [Extra.isOpened]
  intro h
  simpa using (exists_isReadAfter_iff hfeed hsettled hopen).1 h

end Factbase.Find
