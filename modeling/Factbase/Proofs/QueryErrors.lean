import Mathlib.Data.List.Chain
import Factbase.Find.Lexer
import Factbase.Proofs.Predictions

/-! # Errors about query texts

Parts that refuse a token have taken all tokens before it, and something can always be added after
tokens that parts have taken: each part that has to follow has some tokens that stand for it, and
what may be left out is left out before them (`exists_completion`).

So an error is about the first token that is wrong: tokens before it begin a query, and no query
begins with the tokens up to it (`exists_wrong_token`). -/

namespace Factbase.Find

open Reader

/-- Only what may stand in a query text is left out. -/
theorem Part.exists_extra_of_passes {p : Part} {k : TokenKind} (h : p.passes k = true) :
    ∃ e, p = .extra e := by
  have hpass : p.predict k = .pass := by simpa [passes] using h
  cases p with
  | extra e => exact ⟨e, rfl⟩
  | _ =>
    simp only [predict] at hpass
    repeat' split at hpass
    all_goals simp at hpass

/-! ## Where reading stops -/

/-- Whether reading stops at a kind of token: parts refuse it, or none has to follow and it is not
the end. -/
def Stuck (k : TokenKind) (parts : List Part) (wanted : Wanted) : Prop :=
  Refuses k parts wanted ∨ Settled k parts ∧ k ≠ .finish ∧ wanted = .queryEnd

variable {k : TokenKind} {parts left new : List Part} {tokens rest used : List Token}
  {wanted : Wanted}

theorem Settled.shift_eq (h : Settled k parts) : shift k parts = none := by
  have hshift : shift k (parts ++ []) = shift k [] := shift_append_of_settled h
  rwa [List.append_nil] at hshift

theorem Stuck.shift_eq (h : Stuck k parts wanted) : shift k parts = none := by
  rcases h with ⟨skipped, p, rest, rfl, hskipped, hp⟩ | ⟨hsettled, -⟩
  · rw [shift_append_of_settled hskipped, shift_of_refuse hp]
  · exact hsettled.shift_eq

/-- The end is not taken. -/
theorem shift_finish (parts : List Part) : shift .finish parts = none := by
  induction parts with
  | nil => rfl
  | cons p parts ih =>
    cases hp : p.predict .finish with
    | take new => exact absurd hp (Part.predict_finish_ne_take p new)
    | pass => rw [shift_of_pass (by simp [Part.passes, hp]), ih]
    | refuse wanted => exact shift_of_refuse hp

theorem ne_finish_of_feed (h : feed parts tokens = some left) : ∀ t ∈ tokens, t.kind ≠ .finish := by
  induction tokens generalizing parts with
  | nil => simp
  | cons t tokens ih =>
    rw [feed, Option.bind_eq_some_iff] at h
    obtain ⟨next, hnext, hrest⟩ := h
    refine List.forall_mem_cons.2 ⟨fun hfinish => ?_, ih hrest⟩
    rw [hfinish, shift_finish] at hnext
    simp at hnext

/-- Parts that cannot take a token have taken all tokens that parts can take. -/
theorem length_le_of_feed {taken more : List Token} (hused : feed parts used = some left)
    (hstuck : shift (kind rest) left = none) (htaken : feed parts taken = some new)
    (heq : used ++ rest = taken ++ more) : taken.length ≤ used.length := by
  by_contra hlt
  obtain ⟨between, rfl⟩ : used <+: taken :=
    List.prefix_of_prefix_length_le ⟨rest, heq⟩ ⟨more, rfl⟩ (by omega)
  cases between with
  | nil => simp at hlt
  | cons t between =>
    rw [List.append_assoc, List.append_cancel_left_eq] at heq
    subst heq
    rw [feed_tokens_append, hused, Option.bind_some, feed] at htaken
    rw [List.cons_append, kind_cons] at hstuck
    rw [hstuck] at htaken
    simp at htaken

/-- A query is read where its parts take the tokens up to the end. -/
theorem exists_feed_of_ok {q : Query} (h : query tokens = .ok q) :
    ∃ used rest left, tokens = used ++ rest ∧ kind rest = .finish ∧
      feed Part.start used = some left ∧ Settled .finish left := by
  rw [query_eq, bind_eq_ok] at h
  obtain ⟨⟨q', rest⟩, hq, h⟩ := h
  obtain ⟨used, left, htokens, hfeed, hsettled⟩ := (follows_of_ok hq).1 (follows_sentence tokens)
  dsimp only at h
  split at h
  · next hfinish => exact ⟨used, rest, left, htokens, hfinish, hfeed, hfinish ▸ hsettled⟩
  · simp [reject] at h

/-- A query is refused where its parts are stuck. -/
theorem exists_feed_of_error {r : Rejection} (h : query tokens = .error r) :
    ∃ used left, tokens = used ++ r.rest ∧ feed Part.start used = some left ∧
      Stuck (kind r.rest) left r.wanted := by
  rw [query_eq] at h
  cases hq : sentence tokens with
  | error r' =>
    obtain rfl : r' = r := by simpa [hq, bind, Except.bind] using h
    obtain ⟨used, left, htokens, hfeed, hrefuse⟩ :=
      (follows_of_error hq).1 (follows_sentence tokens)
    exact ⟨used, left, htokens, hfeed, .inl hrefuse⟩
  | ok x =>
    obtain ⟨q, rest⟩ := x
    obtain ⟨used, left, htokens, hfeed, hsettled⟩ :=
      (follows_of_ok hq).1 (follows_sentence tokens)
    simp only [hq, bind, Except.bind] at h
    split at h
    · simp [pure, Except.pure] at h
    · next hfinish =>
      obtain rfl : ⟨.queryEnd, rest⟩ = r := by simpa [reject] using h
      exact ⟨used, left, htokens, hfeed, .inr ⟨hsettled, hfinish, rfl⟩⟩

theorem Settled.not_refuses (h : Settled k parts) {k' : TokenKind} :
    ¬ Refuses k' parts wanted := by
  rintro ⟨skipped, p, rest, rfl, -, hp⟩
  obtain ⟨e, rfl⟩ := Part.exists_extra_of_passes (h p (by simp))
  simp only [Part.predict] at hp
  split at hp <;> simp at hp

theorem Settled.not_stuck (h : Settled .finish parts) : ¬ Stuck .finish parts wanted := by
  rintro (hrefuse | ⟨-, hne, -⟩)
  · exact h.not_refuses hrefuse
  · exact hne rfl

/-- Tokens that are taken stand before the end. -/
theorem length_le_of_finish {before more : List Token} {t : Token}
    (hfeed : feed parts used = some left) (ht : t.kind = .finish)
    (heq : used ++ rest = before ++ t :: more) :
    used.length ≤ before.length := by
  by_contra hlt
  obtain ⟨between, rfl⟩ : before <+: used :=
    List.prefix_of_prefix_length_le ⟨t :: more, heq.symm⟩ ⟨rest, rfl⟩ (by omega)
  cases between with
  | nil => simp at hlt
  | cons t' between =>
    rw [List.append_assoc, List.append_cancel_left_eq, List.cons_append, List.cons.injEq] at heq
    exact ne_finish_of_feed hfeed t' (by simp) (heq.1 ▸ ht)

/-- Tokens after which no part is missing are a query. -/
theorem exists_query_eq_ok {t : Token} (hfeed : feed Part.start tokens = some left)
    (hsettled : Settled .finish left) (ht : t.kind = .finish) (more : List Token) :
    ∃ q, query (tokens ++ t :: more) = .ok q := by
  cases h : query (tokens ++ t :: more) with
  | ok q => exact ⟨q, rfl⟩
  | error r =>
    obtain ⟨used, left', htokens, hfeed', hstuck⟩ := exists_feed_of_error h
    have hle := length_le_of_feed hfeed' hstuck.shift_eq hfeed htokens.symm
    have hge := length_le_of_finish hfeed' ht htokens.symm
    obtain ⟨rfl, hrest⟩ := List.append_inj htokens.symm (by omega)
    obtain rfl : left = left' := Option.some.inj (hfeed.symm.trans hfeed')
    rw [hrest, kind_cons, ht] at hstuck
    exact absurd hstuck hsettled.not_stuck

/-- Where a query is read, parts that have taken some tokens take the next one, or it is the end. -/
theorem settled_of_ok {q : Query} {before more : List Token} {t : Token}
    (h : query (before ++ t :: more) = .ok q) (hfeed : feed Part.start before = some left) :
    shift t.kind left ≠ none ∨ t.kind = .finish ∧ Settled .finish left := by
  obtain ⟨used, rest, left', heq, hfinish, hfeed', hsettled⟩ := exists_feed_of_ok h
  have hnone : shift (kind rest) left' = none := by rw [hfinish, shift_finish]
  have hle := length_le_of_feed hfeed' hnone hfeed heq.symm
  rcases Nat.lt_or_eq_of_le hle with hlt | hlen
  · refine .inl fun hnone => ?_
    have hnone' : shift (kind (t :: more)) left = none := hnone
    have hge := length_le_of_feed hfeed hnone' hfeed' heq
    omega
  · obtain ⟨rfl, rfl⟩ := List.append_inj heq hlen
    obtain rfl : left = left' := Option.some.inj (hfeed.symm.trans hfeed')
    exact .inr ⟨hfinish, hsettled⟩

/-! ## What can follow -/

namespace Part

/-- Whether a part may stand before another one: what may be left out does not stand before a word
that has to follow, which could be taken for its announcement. -/
def mayPrecede : Part → Part → Bool
  | .extra _, .word _ => false
  | _, _ => true

/-- The kinds of some tokens that have to stand for a part. -/
def shortest : Part → List TokenKind
  | .word w => [.keyword w]
  | .entityType => [.ident ""]
  | .variable => [.var ""]
  | .attrName => [.ident ""]
  | .number => [.number 0]
  | .operand _ => [.keyword .NULL]
  | .containedText => [.text ""]
  | .pattern => [.text ""]
  | .leftParen => [.leftParen]
  | .rightParen => [.rightParen]
  | .test => [.operator .eq, .keyword .NULL]
  | .term => [.var "", .operator .eq, .keyword .NULL]
  | .limit => [.number 0]
  | .extra _ => []

/-- The parts that come after a token are arranged in this way. -/
theorem isChain_of_predict {p : Part} {k : TokenKind} {new : List Part}
    (h : p.predict k = .take new) :
    new.IsChain (mayPrecede · ·) ∧ ∀ e, new.getLast? = some (.extra e) → ∃ e', p = .extra e' := by
  cases p with
  | extra e =>
    refine ⟨?_, fun _ _ => ⟨e, rfl⟩⟩
    simp only [predict] at h
    split at h
    · obtain rfl := Prediction.take.inj h
      cases e <;> decide
    · simp at h
  | _ =>
    simp only [predict] at h
    repeat' split at h
    all_goals simp at h
    all_goals subst h
    all_goals exact ⟨by decide, by simp⟩

/-- A part that has to follow takes its tokens. -/
theorem feed_shortest {p : Part} (hp : ∀ e, p ≠ .extra e) (parts : List Part) :
    feed (p :: parts) (p.shortest.map fun k => ⟨k, [], .start⟩) = some parts := by
  have hzero : Number.whole? 0 = some (.ofNat 0) := by decide +kernel
  cases p with
  | extra e => exact absurd rfl (hp e)
  | _ =>
    simp [shortest, feed, shift, predict, Extra.isOpened, Reader.operandOf?, hzero]

/-- What may be left out is left out before these tokens, words apart. -/
theorem isOpened_of_head?_shortest {p : Part} (hp : ∀ w, p ≠ .word w) {k : TokenKind}
    (hk : p.shortest.head? = some k) (e : Extra) : e.isOpened k = false := by
  cases p <;> simp [shortest] at hk hp <;> subst hk <;> cases e <;> simp [Extra.isOpened]

end Part

/-- Whether parts are arranged in this way. -/
def IsArranged (parts : List Part) : Prop := parts.IsChain (Part.mayPrecede · ·)

/-- Taking a token keeps the arrangement. -/
theorem IsArranged.shift (h : IsArranged parts) (hshift : shift k parts = some new) :
    IsArranged new := by
  induction parts with
  | nil => simp [Find.shift] at hshift
  | cons p parts ih =>
    have hparts : IsArranged parts := List.IsChain.of_cons h
    cases hp : p.predict k with
    | take new' =>
      rw [shift_of_take hp, Option.some.injEq] at hshift
      obtain ⟨hnew, hlast⟩ := Part.isChain_of_predict hp
      rw [← hshift]
      refine hnew.append hparts fun x hx y hy => ?_
      cases x with
      | extra e =>
        obtain ⟨e', rfl⟩ := hlast e hx
        have hprecede := (List.isChain_cons.1 h).1 y hy
        cases y with
        | word w => simp [Part.mayPrecede] at hprecede
        | _ => rfl
      | _ => rfl
    | pass =>
      rw [shift_of_pass (by simp [Part.passes, hp])] at hshift
      exact ih hparts hshift
    | refuse wanted =>
      rw [shift_of_refuse hp] at hshift
      simp at hshift

/-- Taking tokens keeps the arrangement. -/
theorem IsArranged.feed (h : IsArranged parts) (hfeed : feed parts tokens = some left) :
    IsArranged left := by
  induction tokens generalizing parts with
  | nil =>
    obtain rfl : parts = left := by simpa [Find.feed] using hfeed
    exact h
  | cons t tokens ih =>
    rw [Find.feed, Option.bind_eq_some_iff] at hfeed
    obtain ⟨next, hnext, hrest⟩ := hfeed
    exact ih (h.shift hnext) hrest

/-- Some tokens can follow after which no part is missing. The first of them announces nothing that
may be left out, so that parts before are left out. -/
theorem exists_completion (h : IsArranged parts) :
    ∃ more left, feed parts more = some left ∧ Settled .finish left ∧
      ∀ t, more.head? = some t → (∀ w, parts.head? ≠ some (.word w)) →
        ∀ e : Extra, e.isOpened t.kind = false := by
  induction parts with
  | nil => exact ⟨[], [], rfl, by simp [Settled], by simp⟩
  | cons p parts ih =>
    obtain ⟨more, left, hfeed, hsettled, hhead⟩ := ih (List.IsChain.of_cons h)
    by_cases hp : ∃ e, p = .extra e
    · obtain ⟨e, rfl⟩ := hp
      have hword : ∀ w, parts.head? ≠ some (.word w) := fun w hw => by
        have hprecede := (List.isChain_cons.1 h).1 _ hw
        simp [Part.mayPrecede] at hprecede
      cases more with
      | nil =>
        obtain rfl : parts = left := by simpa [feed] using hfeed
        refine ⟨[], _, rfl, List.forall_mem_cons.2 ⟨?_, hsettled⟩, by simp⟩
        cases e <;> rfl
      | cons t more =>
        have hclosed := hhead t rfl hword
        have hpass : (Part.extra e).passes t.kind = true := by
          simp [Part.passes, Part.predict, hclosed]
        refine ⟨t :: more, left, ?_, hsettled, fun t' ht' _ => ?_⟩
        · rw [feed, shift_of_pass hpass]
          exact hfeed
        · obtain rfl : t = t' := by simpa using ht'
          exact hclosed
    · have hp' : ∀ e, p ≠ .extra e := fun e he => hp ⟨e, he⟩
      refine ⟨(p.shortest.map fun k => ⟨k, [], .start⟩) ++ more, left, ?_, hsettled, ?_⟩
      · rw [feed_tokens_append, Part.feed_shortest hp', Option.bind_some, hfeed]
      · intro t ht hword e
        cases hshortest : p.shortest with
        | nil => cases p <;> simp [Part.shortest] at hshortest hp'
        | cons k ks =>
          obtain rfl : ⟨k, [], .start⟩ = t := by simpa [hshortest] using ht
          have hp'' : ∀ w, p ≠ .word w := fun w hw => hword w (by rw [hw]; rfl)
          have hk : p.shortest.head? = some k := by rw [hshortest]; rfl
          exact Part.isOpened_of_head?_shortest hp'' hk e

theorem isArranged_start : IsArranged Part.start := by
  unfold IsArranged
  decide

/-! ## The token that is wrong -/

/-- Whether a query is read from tokens. -/
def IsAccepted (tokens : List Token) : Prop := ∃ q, Query.ofTokens tokens = .ok q

/-- Whether the last token, and no other, is the end. -/
def IsEnded (tokens : List Token) : Prop :=
  ∃ words t, tokens = words ++ [t] ∧ t.kind = .finish ∧ ∀ w ∈ words, w.kind ≠ .finish

theorem ofTokens_eq_ok {q : Query} : Query.ofTokens tokens = .ok q ↔ query tokens = .ok q := by
  unfold Query.ofTokens
  cases query tokens <;> simp [Except.mapError]

theorem ofTokens_eq_error {e : Error} :
    Query.ofTokens tokens = .error e ↔ ∃ r, query tokens = .error r ∧ r.error = e := by
  unfold Query.ofTokens
  cases query tokens <;> simp [Except.mapError]

/-- An error is about the first token after which tokens cannot be a query any more. -/
theorem exists_wrong_token (hend : IsEnded tokens) {e : Error}
    (h : Query.ofTokens tokens = .error e) :
    ∃ before t after, tokens = before ++ t :: after ∧ e.place = t.place ∧
      (∃ more, IsEnded (before ++ more) ∧ IsAccepted (before ++ more)) ∧
        ∀ more, ¬ IsAccepted (before ++ t :: more) := by
  obtain ⟨r, hr, rfl⟩ := ofTokens_eq_error.1 h
  obtain ⟨before, left, heq, hfeed, hstuck⟩ := exists_feed_of_error hr
  cases hrest : r.rest with
  | nil =>
    -- the end is not taken, so something is left over
    obtain ⟨words, t, rfl, ht, -⟩ := hend
    rw [hrest, List.append_nil] at heq
    exact absurd ht (ne_finish_of_feed hfeed t (by rw [← heq]; simp))
  | cons t after =>
    rw [hrest] at heq hstuck
    refine ⟨before, t, after, heq, by rw [Rejection.error, hrest]; rfl, ?_, ?_⟩
    · obtain ⟨more, left', hmore, hsettled, -⟩ := exists_completion (isArranged_start.feed hfeed)
      have hall : feed Part.start (before ++ more) = some left' := by
        rw [feed_tokens_append, hfeed, Option.bind_some, hmore]
      obtain ⟨q, hq⟩ := exists_query_eq_ok (t := .finish .start) hall hsettled rfl []
      rw [List.append_assoc] at hq
      refine ⟨more ++ [.finish .start], ⟨before ++ more, .finish .start, ?_, rfl, ?_⟩, q, ?_⟩
      · rw [List.append_assoc]
      · exact ne_finish_of_feed hall
      · exact ofTokens_eq_ok.2 hq
    · rintro more ⟨q, hq⟩
      rcases settled_of_ok (ofTokens_eq_ok.1 hq) hfeed with hshift | ⟨ht, hsettled⟩
      · exact hshift hstuck.shift_eq
      · rw [kind_cons, ht] at hstuck
        exact hsettled.not_stuck hstuck

/-- A query with a token too many. -/
def trailing : List Token := (tokenize "FIND p AS ?p LIMIT 1 ?x").1

/-- The error about that token. -/
def trailingError : Error := ⟨.unexpected .queryEnd (.var "x"), ⟨1, 22, 21⟩, 2⟩

theorem ofTokens_trailing : Query.ofTokens trailing = .error trailingError := by
  decide +kernel

theorem isEnded_trailing : IsEnded trailing :=
  ⟨trailing.dropLast, .finish ⟨1, 24, 23⟩, by decide +kernel, rfl, by decide +kernel⟩

/-- A token too many after a limit. -/
theorem exists_wrong_token_trailing : IsEnded trailing ∧
    Query.ofTokens trailing = .error trailingError ∧
    ∃ before t after, trailing = before ++ t :: after ∧ trailingError.place = t.place ∧
      (∃ more, IsEnded (before ++ more) ∧ IsAccepted (before ++ more)) ∧
        ∀ more, ¬ IsAccepted (before ++ t :: more) :=
  ⟨isEnded_trailing, ofTokens_trailing, exists_wrong_token isEnded_trailing ofTokens_trailing⟩

end Factbase.Find
