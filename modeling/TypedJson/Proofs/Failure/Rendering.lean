import TypedJson.Proofs.Check.FailureTree
import TypedJson.Proofs.Text.Lines
import TypedJson.Proofs.Value.Characters

/-!
# The lines of a rendered failure

A failure is rendered as the line of its message and, further right, those of the failures under
it. Values are shown by their compact texts, which are free of line feeds, but names are shown as
they are. So the number of lines is the number of failures plus the number of line feeds in the
names that their messages show, and every failure has one line exactly where no such name has a
line feed.

Where that is so, the tree of failures can be seen from the indentation of the lines:
`Shape.ofIndentations` builds it from the number of spaces in front of each line, from the last
line to the first.
-/

set_option autoImplicit false

namespace TypedJson

/-! ## Line feeds in messages -/

namespace Text

/-- The number of line feeds in a text. -/
def feeds (s : String) : Nat :=
  s.toList.count '\n'

theorem feeds_append (s t : String) : feeds (s ++ t) = feeds s + feeds t := by
  rw [feeds, String.toList_append, List.count_append]
  rfl

theorem feeds_after {s : String} (t : String) (h : feeds s = 0) : feeds (s ++ t) = feeds t := by
  rw [feeds_append, h, Nat.zero_add]

theorem feeds_before (s : String) {t : String} (h : feeds t = 0) : feeds (s ++ t) = feeds s := by
  rw [feeds_append, h, Nat.add_zero]

theorem feeds_eq_zero_iff {s : String} : feeds s = 0 ↔ '\n' ∉ s.toList :=
  List.count_eq_zero

theorem feeds_of_plain {s : String} (h : Plain s.toList) : feeds s = 0 :=
  feeds_eq_zero_iff.2 fun hfeed => absurd (h '\n' hfeed) (by decide)

theorem feeds_toString (n : Nat) : feeds (toString n) = 0 := by
  apply feeds_of_plain
  rw [Nat.toString_eq_repr, Nat.toList_repr]
  exact fun c hc => (Number.isMark_of_mem_toDigits hc).le_toNat

/-- Names are set apart by commas, which are no line feeds. -/
theorem feeds_intercalate (names : List String) :
    feeds (String.intercalate ", " names) = (names.map feeds).sum := by
  induction names with
  | nil => rfl
  | cons name rest ih =>
      cases rest with
      | nil => simp
      | cons next more =>
          rw [String.intercalate_cons_cons, feeds_append, feeds_append, ih, List.map_cons,
            List.sum_cons]
          rfl

theorem sum_feeds_eq_zero_iff {names : List String} :
    (names.map feeds).sum = 0 ↔ ∀ name ∈ names, '\n' ∉ name.toList := by
  rw [List.sum_eq_zero_iff_forall_eq_nat, List.forall_mem_map]
  exact forall₂_congr fun name _ => feeds_eq_zero_iff

end Text

open Text

/-- The names that the display of a type shows. -/
def Ty.shownNames : Ty → List String
  | .struct fields _ => Entries.names fields
  | .map key value _ => key.shownNames ++ value.shownNames
  | .list item _ => item.shownNames
  | .letIn bindings body _ => Entries.names bindings ++ body.shownNames
  | .ref name _ => [name]
  | .basic .. | .literal .. | .union .. | .tuple .. => []

/-- Only names bring line feeds into the display of a type. -/
theorem Ty.feeds_display (t : Ty) : feeds t.display = (t.shownNames.map feeds).sum := by
  induction t using Ty.induction with
  | basic sub note =>
      have hname : ∀ sub : Basic, feeds sub.name = 0 := by
        intro sub
        cases sub <;> decide
      exact hname sub
  | literal value note =>
      rw [display, feeds_before _ (feeds_of_plain value.plain_compact)]
      exact (by decide : feeds "literal " = 0)
  | union alts note ih =>
      rw [display, feeds_before _ (feeds_toString _)]
      exact (by decide : feeds "union of " = 0)
  | struct fields note ih =>
      simp (disch := decide) only [display, feeds_before, feeds_after]
      exact feeds_intercalate _
  | map key value note ihkey ihvalue =>
      rw [display, feeds_append, ihvalue]
      simp (disch := decide) only [feeds_before, feeds_after]
      rw [ihkey, shownNames, List.map_append, List.sum_append]
  | list item note ih =>
      simp (disch := decide) only [display, feeds_after]
      exact ih
  | tuple items note ih =>
      rw [display, feeds_before _ (feeds_toString _)]
      exact (by decide : feeds "tuple of " = 0)
  | letIn bindings body note ihbindings ihbody =>
      rw [display, feeds_append, ihbody]
      simp (disch := decide) only [feeds_before, feeds_after]
      rw [feeds_intercalate, shownNames, List.map_append, List.sum_append]
  | ref name note =>
      simp (disch := decide) only [display, feeds_after, shownNames]
      exact (Nat.add_zero _).symm

theorem Value.feeds_describe (term : Option Value) : feeds (describe term) = 0 := by
  cases term with
  | none => decide
  | some v => exact feeds_of_plain v.plain_compact

namespace Failure

/-- The names that the message of a failure shows. -/
def shownNames : Failure → List String
  | .mismatch ty _ | .literalMismatch ty _ | .unionExhausted ty _ _ => ty.shownNames
  | .unknownRef name _ => [name]
  | .recursionLimit _ => []

/-- Only names bring line feeds into the message of a failure. -/
theorem feeds_message (failure : Failure) :
    feeds failure.message = (failure.shownNames.map feeds).sum := by
  cases failure with
  | mismatch ty term =>
      have hlabel : feeds ("cannot coerce " ++ Value.describe term ++ " into ") = 0 := by
        simp (disch := decide) only [feeds_before, feeds_after]
        exact Value.feeds_describe term
      exact (feeds_after _ hlabel).trans ty.feeds_display
  | literalMismatch ty term =>
      have hlabel : feeds (Value.describe term ++ " is not ") = 0 := by
        simp (disch := decide) only [feeds_before]
        exact Value.feeds_describe term
      exact (feeds_after _ hlabel).trans ty.feeds_display
  | unionExhausted ty term chain =>
      have hvalue := feeds_before ("no alternative of " ++ ty.display ++ " matched ")
        (Value.feeds_describe term)
      refine hvalue.trans ?_
      simp (disch := decide) only [feeds_before, feeds_after]
      exact ty.feeds_display
  | unknownRef name bindings =>
      have hquoted : feeds ("unknown ref `" ++ name ++ "`") = feeds name := by
        simp (disch := decide) only [feeds_before, feeds_after]
      exact hquoted.trans (Nat.add_zero _).symm
  | recursionLimit limit =>
      have hnumber : feeds ("recursion limit of " ++ toString limit.toNat ++ " exceeded") = 0 := by
        simp (disch := decide) only [feeds_before, feeds_after]
        exact feeds_toString _
      exact hnumber

/-! ## The failures with their levels -/

mutual

/-- The failure and all failures under it, each with the number of chains around it. -/
def outline (level : Nat) : Failure → List (Nat × Failure)
  | .unionExhausted ty term chain =>
      (level, .unionExhausted ty term chain) :: outlineIn (level + 1) chain
  | failure => [(level, failure)]

/-- The outline of every failure of a chain. -/
def outlineIn (level : Nat) : List Failure → List (Nat × Failure)
  | [] => []
  | failure :: rest => outline level failure ++ outlineIn level rest

end

theorem outlineIn_eq_flatMap (level : Nat) (chain : List Failure) :
    outlineIn level chain = chain.flatMap (outline level) := by
  induction chain with
  | nil => rfl
  | cons failure rest ih => rw [outlineIn, ih, List.flatMap_cons]

theorem outline_eq (failure : Failure) (level : Nat) :
    failure.outline level = (level, failure) :: failure.under.flatMap (outline (level + 1)) := by
  cases failure with
  | unionExhausted ty term chain => rw [outline, outlineIn_eq_flatMap, under]
  | _ => simp only [outline, under, List.flatMap_nil]

/-- The outline has the failures in the order of the tree. -/
theorem map_snd_outline (failure : Failure) (level : Nat) :
    (failure.outline level).map Prod.snd = failure.nodes := by
  induction failure using Failure.induction generalizing level with
  | step failure ih =>
      rw [outline_eq, nodes_eq, List.map_cons, List.map_flatMap]
      congr 1
      exact List.flatMap_congr fun below hbelow => ih below hbelow (level + 1)

/-- The line of a failure: two spaces for every chain around it, then its message. -/
def line (entry : Nat × Failure) : List Char :=
  List.replicate (2 * entry.1) ' ' ++ entry.2.message.toList

theorem toList_pushn (n : Nat) : ("".pushn ' ' n).toList = List.replicate n ' ' := by
  induction n with
  | zero => rfl
  | succ n ih =>
      change (("".pushn ' ' n).push ' ').toList = _
      rw [String.toList_push, ih, List.replicate_succ']

/-- What is rendered is the outline, line by line. -/
theorem linesAt_eq_outline (failure : Failure) (level : Nat) :
    (failure.linesAt level).map String.toList = (failure.outline level).map line := by
  induction failure using Failure.induction generalizing level with
  | step failure ih =>
      rw [outline_eq, linesAt_eq, List.map_cons, List.map_cons, List.map_flatMap,
        List.map_flatMap]
      congr 1
      · rw [String.toList_append, toList_pushn]
        rfl
      · exact List.flatMap_congr fun below hbelow => ih below hbelow (level + 1)

theorem toList_render (failure : Failure) :
    failure.render.toList = ((failure.outline 0).map line).flatMap fun line => line ++ ['\n'] := by
  rw [← linesAt_eq_outline, render, String.toList_join, List.flatMap_map, List.flatMap_map]
  refine List.flatMap_congr fun line _ => ?_
  rw [String.toList_append]
  rfl

/-! ## One line for each failure -/

/-- The line feeds in the names that the messages of a failure and of all under it show. -/
def nameFeeds (failure : Failure) : Nat :=
  (failure.nodes.map fun node => (node.shownNames.map feeds).sum).sum

/-- No message of the failure, or of one under it, shows a name with a line feed. -/
def NamesInline (failure : Failure) : Prop :=
  ∀ node ∈ failure.nodes, ∀ name ∈ node.shownNames, '\n' ∉ name.toList

/-- The rendering is made of lines that each end in a line feed: one for each failure, in the
order of the tree, with two spaces for every chain around it in front of its message. -/
def OneLineEach (failure : Failure) : Prop :=
  splitAt '\n' failure.render.toList = (failure.outline 0).map line ++ [[]]

instance : DecidablePred NamesInline := fun failure =>
  inferInstanceAs (Decidable (∀ node ∈ failure.nodes, ∀ name ∈ node.shownNames, _))

instance : DecidablePred OneLineEach := fun _ => inferInstanceAs (Decidable (_ = _))

theorem count_line (entry : Nat × Failure) :
    (line entry).count '\n' = (entry.2.shownNames.map feeds).sum := by
  rw [line, List.count_append, List.count_replicate]
  exact (Nat.zero_add _).trans entry.2.feeds_message

theorem namesInline_iff {failure : Failure} :
    failure.NamesInline ↔ ∀ entry ∈ failure.outline 0, '\n' ∉ line entry := by
  rw [NamesInline, ← map_snd_outline failure 0, List.forall_mem_map]
  refine forall₂_congr fun entry _ => ?_
  rw [← sum_feeds_eq_zero_iff, ← count_line, List.count_eq_zero]

theorem nameFeeds_eq_zero_iff {failure : Failure} :
    failure.nameFeeds = 0 ↔ failure.NamesInline := by
  rw [nameFeeds, List.sum_eq_zero_iff_forall_eq_nat, List.forall_mem_map]
  exact forall₂_congr fun node _ => sum_feeds_eq_zero_iff

/-- Every failure brings one line feed of its own, and every line feed in a name one more. -/
theorem feeds_render (failure : Failure) :
    feeds failure.render = failure.nodes.length + failure.nameFeeds := by
  have hlines : ∀ entries : List (Nat × Failure),
      ((entries.map line).flatMap fun line => line ++ ['\n']).count '\n' =
        entries.length + (entries.map fun entry => (entry.2.shownNames.map feeds).sum).sum := by
    intro entries
    induction entries with
    | nil => rfl
    | cons entry entries ih =>
        rw [List.map_cons, List.flatMap_cons, List.count_append, List.count_append, ih, count_line,
          List.map_cons, List.sum_cons, List.length_cons, List.count_singleton_self]
        omega
  rw [feeds, toList_render, hlines, nameFeeds, ← map_snd_outline failure 0, List.length_map,
    List.map_map]
  rfl

theorem oneLineEach_iff {failure : Failure} : failure.OneLineEach ↔ failure.NamesInline := by
  constructor
  · intro h
    -- The number of pieces leaves no line feed to the names.
    have hpieces := length_splitAt '\n' failure.render.toList
    have hfeeds : failure.render.toList.count '\n' = _ := failure.feeds_render
    have hnodes := congrArg List.length (failure.map_snd_outline 0)
    rw [h, hfeeds] at hpieces
    simp only [List.length_append, List.length_map, List.length_cons, List.length_nil]
      at hpieces hnodes
    exact nameFeeds_eq_zero_iff.1 (by omega)
  · intro h
    rw [OneLineEach, toList_render, splitAt_lines]
    exact List.forall_mem_map.2 (namesInline_iff.1 h)

end Failure

/-! ## The tree in the indentation -/

/-- The number of spaces in front of a line. -/
def Text.indentation (line : List Char) : Nat :=
  (line.takeWhile fun c => c == ' ').length

/-- The indentation of every line of a text that a line feed ends. -/
def Text.indentations (s : String) : List Nat :=
  (splitAt '\n' s.toList).dropLast.map indentation

/-- A tree without labels. -/
inductive Shape where
  | node (under : List Shape)

namespace Shape

/-- A line in front of others: the lines below that stand further right, up to the first that
does not, are under it. -/
def place (indentation : Nat) (below : List (Nat × Shape)) : List (Nat × Shape) :=
  (indentation, .node ((below.takeWhile fun other => indentation < other.1).map Prod.snd)) ::
    below.dropWhile fun other => indentation < other.1

/-- The trees that lines with the given indentations stand for. -/
def ofIndentations (indentations : List Nat) : List Shape :=
  (indentations.foldr place []).map Prod.snd

end Shape

namespace Failure

mutual

/-- The tree of a failure. -/
def shape : Failure → Shape
  | .unionExhausted _ _ chain => .node (shapesIn chain)
  | _ => .node []

/-- The trees of the failures of a chain. -/
def shapesIn : List Failure → List Shape
  | [] => []
  | failure :: rest => shape failure :: shapesIn rest

end

theorem shape_eq (failure : Failure) : failure.shape = .node (failure.under.map shape) := by
  have hchain : ∀ chain, shapesIn chain = chain.map shape := by
    intro chain
    induction chain with
    | nil => rfl
    | cons failure rest ih => rw [shapesIn, ih, List.map_cons]
  cases failure with
  | unionExhausted ty term chain => rw [shape, hchain, under]
  | _ => rfl

/-- No message starts with a space, so that a line shows its level. -/
theorem exists_first_message (failure : Failure) :
    ∃ c t, failure.message.toList = c :: t ∧ c ≠ ' ' := by
  have hlabel : ∀ {label : String} (rest : String), (∃ c t, label.toList = c :: t ∧ c ≠ ' ') →
      ∃ c t, (label ++ rest).toList = c :: t ∧ c ≠ ' ' := by
    rintro label rest ⟨c, t, h, hc⟩
    exact ⟨c, t ++ rest.toList, by rw [String.toList_append, h, List.cons_append], hc⟩
  cases failure with
  | mismatch ty term =>
      exact hlabel _ (hlabel _ (hlabel _ ⟨'c', _, rfl, by decide⟩))
  | literalMismatch ty term =>
      cases term with
      | none => exact hlabel _ (hlabel _ ⟨'<', _, rfl, by decide⟩)
      | some v =>
          obtain ⟨c, t, hv, hvisible, -⟩ := v.exists_visible_compact
          refine hlabel _ (hlabel _ ⟨c, t, hv, ?_⟩)
          rintro rfl
          exact absurd hvisible (by decide)
  | unionExhausted ty term chain =>
      exact hlabel _ (hlabel _ (hlabel _ ⟨'n', _, rfl, by decide⟩))
  | unknownRef name bindings => exact hlabel _ (hlabel _ ⟨'u', _, rfl, by decide⟩)
  | recursionLimit limit => exact hlabel _ (hlabel _ ⟨'r', _, rfl, by decide⟩)

theorem indentation_line (entry : Nat × Failure) : indentation (line entry) = 2 * entry.1 := by
  obtain ⟨c, t, hmessage, hc⟩ := entry.2.exists_first_message
  have hspaces : ∀ d ∈ List.replicate (2 * entry.1) ' ', (d == ' ') = true := by
    intro d hd
    rw [List.eq_of_mem_replicate hd]
    rfl
  rw [indentation, line, hmessage, List.takeWhile_append_of_pos hspaces,
    List.takeWhile_cons_of_neg (by simpa using hc), List.append_nil, List.length_replicate]

/-- The first of the lines does not stand further right than a level. -/
def StopsAt (level : Nat) (lines : List (Nat × Shape)) : Prop :=
  ∀ first ∈ lines.head?, first.1 ≤ 2 * level

/-- A line takes the chain that stands one level further right, and no more. -/
theorem place_chain {level : Nat} {shapes : List Shape} {later : List (Nat × Shape)}
    (h : StopsAt level later) :
    Shape.place (2 * level) (shapes.map (fun shape => (2 * (level + 1), shape)) ++ later) =
      (2 * level, .node shapes) :: later := by
  have hunder : ∀ other ∈ shapes.map (fun shape => (2 * (level + 1), shape)),
      decide (2 * level < other.1) = true := by
    intro other hother
    obtain ⟨shape, -, rfl⟩ := List.mem_map.1 hother
    exact decide_eq_true (by omega)
  have hlater : ∀ p : Nat × Shape → Bool, (∀ first ∈ later.head?, p first = false) →
      later.takeWhile p = [] ∧ later.dropWhile p = later := by
    intro p hp
    cases later with
    | nil => exact ⟨rfl, rfl⟩
    | cons first rest =>
        have hfirst : p first = false := hp first rfl
        simp [hfirst]
  obtain ⟨htake, hdrop⟩ := hlater (fun other => 2 * level < other.1) fun first hfirst =>
    decide_eq_false (Nat.not_lt.2 (h first hfirst))
  rw [Shape.place, List.takeWhile_append_of_pos hunder, List.dropWhile_append_of_pos hunder, htake,
    hdrop, List.append_nil, List.map_map]
  congr 3
  exact List.map_id' shapes

/-- The lines of a failure, read from the last to the first, are the tree of the failure in front
of what comes after it. The lines of a chain are read in the same way, from its last failure to
its first. -/
theorem foldr_place (failure : Failure) (level : Nat) (later : List (Nat × Shape))
    (h : StopsAt level later) :
    ((failure.outline level).map fun entry => 2 * entry.1).foldr Shape.place later =
      (2 * level, failure.shape) :: later := by
  induction failure using Failure.induction generalizing level later with
  | step failure ih =>
      have hchain : ∀ chain : List Failure, (∀ below ∈ chain, below ∈ failure.under) →
          ((chain.flatMap (outline (level + 1))).map fun entry => 2 * entry.1).foldr
              Shape.place later =
            (chain.map shape).map (fun shape => (2 * (level + 1), shape)) ++ later := by
        intro chain hunder
        induction chain with
        | nil => rfl
        | cons below rest ihrest =>
            obtain ⟨hbelow, hrest⟩ := List.forall_mem_cons.1 hunder
            rw [List.flatMap_cons, List.map_append, List.foldr_append, ihrest hrest,
              ih below hbelow]
            · rfl
            · cases rest with
              | nil => exact fun first hfirst => Nat.le_trans (h first hfirst) (by omega)
              | cons next more =>
                  intro first hfirst
                  cases hfirst
                  exact Nat.le_refl _
      rw [outline_eq, List.map_cons, List.foldr_cons, hchain _ fun _ hmem => hmem, place_chain h,
        shape_eq]

theorem ofIndentations_render {failure : Failure} (h : failure.NamesInline) :
    Shape.ofIndentations (indentations failure.render) = [failure.shape] := by
  have hlines : failure.OneLineEach := oneLineEach_iff.2 h
  have hindentations : indentations failure.render =
      (failure.outline 0).map fun entry => 2 * entry.1 := by
    rw [indentations, hlines, List.dropLast_concat, List.map_map]
    exact List.map_congr_left fun entry _ => indentation_line entry
  rw [Shape.ofIndentations, hindentations, foldr_place failure 0 [] (by simp [StopsAt])]
  rfl

end Failure

/-! ## Failures of checks -/

namespace Check

/-- The message of a failure shows the names of the type that it was reported for. -/
theorem Reports.shownNames_eq {inner : Judge} {env : Env} {term : Option Value} {ty : Ty}
    {failure : Failure} (h : Reports inner env term ty failure) :
    failure.shownNames = ty.shownNames := by
  cases h <;> rfl

/-- A check of types that show no line feeds has failures that show none. -/
theorem namesInline_of_checkGiven {checker : Checker} {room : Bool} {env : Env}
    {term : Option Value} {ty : Ty} {failure : Failure}
    (h : checker.checkGiven room env term ty = .error failure)
    (hnames : ∀ t ∈ termsInReach env ty, ∀ name ∈ t.shownNames, '\n' ∉ name.toList) :
    failure.NamesInline := by
  rw [Checker.checkGiven_eq_reach] at h
  intro node hnode
  rcases exists_origin h hnode with ⟨hfatal, rfl⟩ | ⟨fewer, env', term', ty', -, hreach, hown⟩
  · rw [hfatal]
    exact List.forall_mem_nil _
  · rw [hown.shownNames_eq]
    exact hnames ty' (hreach.termsInReach_subset self_mem_termsInReach)

end Check

namespace Failure

/-- A rendered failure has one line for each failure, as far as names allow it. There is one line
feed for each failure of the tree, and one more for each that stands in a name shown by a message.
So the lines are those of the outline exactly where no such name has a line feed, as after every
check of types whose names have none; and then the indentation shows the tree. -/
theorem render_lines_iff (failure : Failure) :
    feeds failure.render = failure.nodes.length + failure.nameFeeds ∧
    (failure.outline 0).map Prod.snd = failure.nodes ∧
    (failure.OneLineEach ↔ failure.NamesInline) ∧
    (failure.NamesInline →
      Shape.ofIndentations (indentations failure.render) = [failure.shape]) ∧
    ∀ (checker : Checker) (room : Bool) (env : Env) (term : Option Value) (ty : Ty),
      checker.checkGiven room env term ty = .error failure →
      (∀ t ∈ Check.termsInReach env ty, ∀ name ∈ t.shownNames, '\n' ∉ name.toList) →
      failure.NamesInline := by
  refine ⟨failure.feeds_render, failure.map_snd_outline 0, oneLineEach_iff,
    ofIndentations_render, ?_⟩
  intro checker room env term ty hfails hnames
  exact Check.namesInline_of_checkGiven hfails hnames

/-- A union in a union, and a text with a line feed, which is shown escaped. -/
theorem render_lines_iff_nested :
    let inner : Ty := .union [.struct [("a b", .basic .int none)] none, .ref "c" none] none
    let ty : Ty := .union [.basic .null none, inner] none
    let term : Option Value := some (.string "x\ny")
    let failure : Failure := .unionExhausted ty term
      [.mismatch (.basic .null none) term, .unionExhausted inner term
        [.mismatch (.struct [("a b", .basic .int none)] none) term, .unknownRef "c" []]]
    Checker.check {} term ty = .error failure ∧ failure.NamesInline ∧ failure.OneLineEach ∧
    Shape.ofIndentations (indentations failure.render) =
      [.node [.node [], .node [.node [], .node []]]] := by
  intro inner ty term failure
  have hfails : Checker.check {} term ty = .error failure := by decide +kernel +zetaReduce
  have hnames : ∀ t ∈ Check.termsInReach .empty ty, ∀ name ∈ t.shownNames,
      '\n' ∉ name.toList := by decide +kernel +zetaReduce
  obtain ⟨-, -, hlines, hshape, hchecked⟩ := failure.render_lines_iff
  have hinline : failure.NamesInline :=
    hchecked {} (Checker.hasRoom {}) .empty term ty hfails hnames
  exact ⟨hfails, hinline, hlines.2 hinline, hshape hinline⟩

/-- A name with a line feed gives one failure two lines. With spaces after the line feed it passes
for a failure in a chain: one alternative is rendered with the indentation of two. -/
theorem render_not_oneLineEach :
    let broken : Failure := .unknownRef "a\nb" []
    let one : Ty := .union [.ref "a`\n  unknown ref `b" none] none
    let two : Ty := .union [.ref "a" none, .ref "b" none] none
    let forged : Failure := .unionExhausted one (some .null) [.unknownRef "a`\n  unknown ref `b" []]
    let honest : Failure :=
      .unionExhausted two (some .null) [.unknownRef "a" [], .unknownRef "b" []]
    Checker.check {} (some .null) (.ref "a\nb" none) = .error broken ∧
    broken.nodes.length = 1 ∧ feeds broken.render = 2 ∧ ¬ broken.OneLineEach ∧
    Checker.check {} (some .null) one = .error forged ∧
    Checker.check {} (some .null) two = .error honest ∧
    indentations forged.render = indentations honest.render ∧ forged.shape ≠ honest.shape := by
  intro broken one two forged honest
  have hchecks : Checker.check {} (some .null) (.ref "a\nb" none) = .error broken ∧
      Checker.check {} (some .null) one = .error forged ∧
      Checker.check {} (some .null) two = .error honest := by decide +kernel +zetaReduce
  have hlines : broken.nodes.length = 1 ∧ feeds broken.render = 2 ∧ ¬ broken.OneLineEach ∧
      indentations forged.render = indentations honest.render := by decide +kernel +zetaReduce
  refine ⟨hchecks.1, hlines.1, hlines.2.1, hlines.2.2.1, hchecks.2.1, hchecks.2.2,
    hlines.2.2.2, ?_⟩
  intro hshape
  cases hshape

end Failure

end TypedJson
