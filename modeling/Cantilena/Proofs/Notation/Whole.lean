import Cantilena.Proofs.Notation.Grouped

/-!
# Groups that are torn apart

The body of a group reaches from the parenthesis behind its count to the last one of its token. Where
these two are partners the body is balanced, and so is all that is cut from it. Where they are not, as
in `2(C)(D)`, what lies between them is torn apart.

* `balanced_append_iff`, `balanced_iff_tokenize`, `balanced_strip_iff` -- cutting and stripping a line
  keep its parentheses in pairs;
* `IsWhole` -- that all groups of a token have balanced bodies;
* `balanced_flat`, `whole_of_balanced_flat` -- what a token stands for is balanced where it is whole, and
  nowhere else unless a group is copied not even once;
* `expand_balanced` -- the same for an expansion.
-/

namespace Cantilena.Notation

open Text (isBlank IsGap)

/-! ## 1. Cutting a balanced line -/

/-- A text behind which nothing is open is balanced where it begins a balanced one, and then the rest is
    balanced too. -/
theorem balanced_append_iff {s t : List Char} (h : depthOver 0 s = 0) :
    Balanced (s ++ t) ↔ Balanced s ∧ Balanced t := by
  refine ⟨fun hst => ?_, fun ⟨hs, ht⟩ => hs.append ht⟩
  have hclosed : ∀ p, p <+: s → p.count ')' ≤ 0 + p.count '(' := fun p hp => by
    rw [Nat.zero_add]
    exact hst.closed_le p (hp.trans (List.prefix_append s t))
  have hsettled : s.count '(' = s.count ')' := by
    have hcount := depthOver_add_count hclosed
    omega
  have hboth := hst.settled
  rw [List.count_append, List.count_append] at hboth
  refine ⟨⟨fun p hp => by simpa using hclosed p hp, hsettled⟩, fun p hp => ?_, by omega⟩
  have hbehind := hst.closed_le (s ++ p) ((List.prefix_append_right_inj s).mpr hp)
  rw [List.count_append, List.count_append] at hbehind
  omega

theorem balanced_gap_append_iff {gap s : List Char} (h : IsGap gap) :
    Balanced (gap ++ s) ↔ Balanced s := by
  rw [balanced_append_iff (depthOver_gap h 0)]
  exact and_iff_right (.of_isGap h)

theorem balanced_append_gap_iff {gap s : List Char} (h : IsGap gap) :
    Balanced (s ++ gap) ↔ Balanced s := by
  have hcount : ∀ c, c = '(' ∨ c = ')' → gap.count c = 0 := by
    rintro c (rfl | rfl)
    · exact List.count_eq_zero_of_not_mem fun hm => (ne_of_isBlank (h _ hm)).1 rfl
    · exact List.count_eq_zero_of_not_mem fun hm => (ne_of_isBlank (h _ hm)).2 rfl
  refine ⟨fun hs => ⟨fun p hp => hs.closed_le p (hp.trans (List.prefix_append s gap)), ?_⟩,
    fun hs => hs.append (.of_isGap h)⟩
  have hsettled := hs.settled
  rwa [List.count_append, List.count_append, hcount _ (.inl rfl), hcount _ (.inr rfl), Nat.add_zero,
    Nat.add_zero] at hsettled

/-- **Stripping keeps parentheses in pairs.** -/
theorem balanced_strip_iff {s : List Char} : Balanced (Text.strip s) ↔ Balanced s := by
  obtain ⟨before, after, hbefore, hafter, h⟩ := Text.exists_strip s
  rw [h, balanced_append_gap_iff hafter, balanced_gap_append_iff hbefore, ← h]

/-- The scan of a line, with some of it read already: all that it cuts is balanced just where all that
    has been and will be read is. -/
theorem balanced_iff_tokensFrom {current line : List Char} :
    Balanced (current.reverse ++ line)
      ↔ ∀ t ∈ tokensFrom current (depthOver 0 current.reverse) line, Balanced t := by
  induction line generalizing current with
  | nil =>
    rw [tokensFrom, List.append_nil]
    by_cases hne : current = []
    · rw [hne]
      exact iff_of_true .nil nofun
    · rw [finished_of_ne_nil hne, List.forall_mem_singleton]
  | cons c rest ih =>
    by_cases hcut : isBlank c = true ∧ depthOver 0 current.reverse = 0
    · obtain ⟨hblank, hdepth⟩ := hcut
      have hgap : IsGap [c] := List.forall_mem_singleton.mpr hblank
      have hrest : Balanced (c :: rest) ↔ ∀ t ∈ tokensFrom [] 0 rest, Balanced t :=
        (balanced_gap_append_iff hgap).trans (@ih [])
      rw [balanced_append_iff hdepth, hrest, hdepth, tokensFrom_blank hblank, List.forall_mem_append]
      refine and_congr_left fun _ => ?_
      by_cases hne : current = []
      · rw [hne]
        exact iff_of_true .nil nofun
      · rw [finished_of_ne_nil hne, List.forall_mem_singleton]
    · have hinside : isBlank c = false ∨ 0 < depthOver 0 current.reverse := by
        cases hblank : isBlank c with
        | false => exact .inl rfl
        | true => exact .inr (Nat.pos_of_ne_zero fun hdepth => hcut ⟨hblank, hdepth⟩)
      have hmore : current.reverse ++ c :: rest = (c :: current).reverse ++ rest := by
        rw [List.reverse_cons, List.append_assoc, List.singleton_append]
      have hdepth : depthAfter (depthOver 0 current.reverse) c = depthOver 0 (c :: current).reverse := by
        rw [List.reverse_cons, depthOver_append]
        rfl
      rw [tokensFrom_cons hinside, hmore, hdepth]
      exact ih

/-- **A line is balanced just where all its tokens are.** -/
theorem balanced_iff_tokenize {line : List Char} :
    Balanced line ↔ ∀ t ∈ tokenize line, Balanced t :=
  @balanced_iff_tokensFrom [] line

/-! ## 2. Groups that are whole -/

/-- That in every group of a token the parenthesis behind the count is the partner of the last one: that
    its body is balanced. -/
def IsWhole (token : List Char) : Prop :=
  ∀ digits body, HasGroup token digits body → Balanced body

/-- That no group of a token is copied not even once. -/
def IsCopied (token : List Char) : Prop :=
  ∀ digits body, HasGroup token digits body → copies digits ≠ 0

/-- A group with a balanced body is balanced. -/
theorem balanced_of_body {token digits body : List Char}
    (h : splitGroup? token = some (digits, body)) (hbody : Balanced body) : Balanced token := by
  obtain ⟨gap, hgap, rfl⟩ := exists_gap_of_splitGroup? h
  obtain ⟨⟨-, hascii, -⟩, -⟩ := of_splitGroup? h
  have hdigits : Balanced digits := by
    refine .of_not_mem (fun hm => ?_) (fun hm => ?_)
    · exact absurd (hascii _ hm) (by decide)
    · exact absurd (hascii _ hm) (by decide)
  exact (hdigits.append hbody.enclosed).append (.of_isGap hgap)

/-- **A whole token stands for balanced ones.** -/
theorem balanced_flat {token : List Char} (hbalanced : Balanced token) (hwhole : IsWhole token) :
    ∀ t ∈ (Item.ofToken token).flat, Balanced t := by
  induction token using Item.ofToken.induct with
  | case1 token hliteral =>
    rw [flat_ofToken_literal hliteral]
    exact List.forall_mem_singleton.mpr hbalanced
  | case2 token digits body hgroup ih =>
    obtain ⟨hbody, hinner⟩ := (forall_hasGroup_iff hgroup).mp hwhole
    intro t ht
    rw [flat_ofToken_group hgroup] at ht
    obtain ⟨copy, hcopy, ht⟩ := List.mem_flatten.mp ht
    obtain rfl := List.eq_of_mem_replicate hcopy
    obtain ⟨u, hu, ht⟩ := mem_unlimited.mp ht
    have hcut : Balanced u := balanced_iff_tokenize.mp (balanced_strip_iff.mpr hbody) u hu
    exact ih ⟨u, hu⟩ hcut (hinner u hu) t ht

/-- **A token that stands for balanced ones is whole**, if it stands for the tokens of all its groups:
    a group that is copied not even once hides what is torn in it. -/
theorem whole_of_balanced_flat {token : List Char} (hcopied : IsCopied token)
    (hflat : ∀ t ∈ (Item.ofToken token).flat, Balanced t) : Balanced token ∧ IsWhole token := by
  induction token using Item.ofToken.induct with
  | case1 token hliteral =>
    rw [flat_ofToken_literal hliteral, List.forall_mem_singleton] at hflat
    exact ⟨hflat, fun _ _ hgroup => absurd hgroup (not_hasGroup hliteral)⟩
  | case2 token digits body hgroup ih =>
    obtain ⟨hself, hinner⟩ := (forall_hasGroup_iff hgroup).mp hcopied
    have hwhole : ∀ u ∈ tokenize (Text.strip body), Balanced u ∧ IsWhole u := by
      refine fun u hu => ih ⟨u, hu⟩ (hinner u hu) fun t ht => hflat t ?_
      rw [flat_ofToken_group hgroup]
      refine List.mem_flatten.mpr ⟨_, List.mem_replicate.mpr ⟨hself, rfl⟩, ?_⟩
      exact mem_unlimited.mpr ⟨u, hu, ht⟩
    have hbody : Balanced body :=
      balanced_strip_iff.mp (balanced_iff_tokenize.mpr fun u hu => (hwhole u hu).1)
    exact ⟨balanced_of_body hgroup hbody,
      (forall_hasGroup_iff hgroup).mpr ⟨hbody, fun u hu => (hwhole u hu).2⟩⟩

/-! ## 3. Expansions -/

/-- **An expansion keeps parentheses in pairs just where all groups are whole.** Balanced tokens, in all
    groups of which the parenthesis behind the count is the partner of the last one, are expanded to
    balanced tokens. And if no group is copied not even once, then only such tokens are: any other group
    is torn apart. -/
theorem expand_balanced {tokens out : List (List Char)} {limit : Int}
    (h : expand tokens limit = .ok out) :
    ((∀ t ∈ tokens, Balanced t ∧ IsWhole t) → ∀ t ∈ out, Balanced t)
      ∧ ((∀ t ∈ tokens, IsCopied t) → (∀ t ∈ out, Balanced t)
        → ∀ t ∈ tokens, Balanced t ∧ IsWhole t) := by
  obtain rfl : out = unlimited tokens := flat_of_expand h
  constructor
  · intro hwhole t ht
    obtain ⟨token, htoken, ht⟩ := mem_unlimited.mp ht
    obtain ⟨hbalanced, hgroups⟩ := hwhole token htoken
    exact balanced_flat hbalanced hgroups t ht
  · intro hcopied hout token htoken
    refine whole_of_balanced_flat (hcopied token htoken) fun t ht => hout t ?_
    exact mem_unlimited.mpr ⟨token, htoken, ht⟩

/-- A group with another one in it. -/
theorem expand_balanced_nested :
    let token := ['2', '(', 'C', ' ', '2', '(', 'D', ')', ')']
    (Balanced token ∧ IsWhole token) ∧ ∃ out, expand [token] 6 = .ok out
      ∧ out = [['C'], ['D'], ['D'], ['C'], ['D'], ['D']] ∧ ∀ t ∈ out, Balanced t := by
  intro token
  have hexpand : expand [token] 6 = .ok [['C'], ['D'], ['D'], ['C'], ['D'], ['D']] :=
    toOption_eq_some.mp (by decide +kernel)
  have houter : splitGroup? token = some (['2'], ['C', ' ', '2', '(', 'D', ')']) := by decide
  have hinner : splitGroup? ['2', '(', 'D', ')'] = some (['2'], ['D']) := by decide
  have hdeep : Balanced ['D'] := .of_not_mem (by decide) (by decide)
  have hfront : Balanced ['C', ' ', '2'] := .of_not_mem (by decide) (by decide)
  have hbody : Balanced (['C', ' ', '2'] ++ ('(' :: ['D'] ++ [')'])) := hfront.append hdeep.enclosed
  have hliteral : ∀ t ∈ tokenize (Text.strip ['D']), splitGroup? t = none := by decide
  have hwhole : IsWhole ['2', '(', 'D', ')'] := (forall_hasGroup_iff hinner).mpr
    ⟨hdeep, fun t ht _ _ hin => absurd hin (not_hasGroup (hliteral t ht))⟩
  have hcut : tokenize (Text.strip ['C', ' ', '2', '(', 'D', ')']) = [['C'], ['2', '(', 'D', ')']] := by
    decide
  have hwholes : IsWhole token := by
    refine (forall_hasGroup_iff houter).mpr ⟨hbody, ?_⟩
    rw [hcut, List.forall_mem_cons, List.forall_mem_singleton]
    exact ⟨fun _ _ hin => absurd hin (not_hasGroup (by decide)), hwhole⟩
  have htoken : Balanced token ∧ IsWhole token := ⟨balanced_of_body houter hbody, hwholes⟩
  exact ⟨htoken, _, hexpand, rfl,
    (expand_balanced hexpand).1 (List.forall_mem_singleton.mpr htoken)⟩

/-- Two groups with nothing between them, of which the second has no count: the token is balanced, but the
    parenthesis behind the count is not the partner of the last one, and both groups are torn apart. -/
theorem not_expand_balanced :
    let token := ['2', '(', 'C', ')', '(', 'D', ')']
    let torn := ['C', ')', '(', 'D']
    tokenize token = [token] ∧ Balanced token ∧ expand [token] defaultLimit = .ok [torn, torn]
      ∧ ¬ Balanced torn := by
  intro token torn
  have hexpand : expand [token] defaultLimit = .ok [torn, torn] :=
    toOption_eq_some.mp (by decide +kernel)
  have hcount : Balanced ['2'] := .of_not_mem (by decide) (by decide)
  have hfirst : Balanced ['C'] := .of_not_mem (by decide) (by decide)
  have hsecond : Balanced ['D'] := .of_not_mem (by decide) (by decide)
  refine ⟨by decide, (hcount.append hfirst.enclosed).append hsecond.enclosed, hexpand, ?_⟩
  intro htorn
  exact absurd (htorn.closed_le ['C', ')'] ⟨['(', 'D'], rfl⟩) (by decide)

end Cantilena.Notation
