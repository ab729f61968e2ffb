import TypedJson.Proofs.Reader.Value

/-!
# Readings taken apart

What a successful reading has seen, part by part: `nextItem_cases` and its like say where a part or
the end of a container was found, `ItemsRead` and `MembersRead` are the runs through the items of an
array and the members of an object, and `RawRead` says for each kind of value what stood in the
text. Other readers of the same text are compared with `raw` by going through these.
-/

set_option autoImplicit false

namespace TypedJson.Reader

variable {α : Type}

/-! ## From part to part -/

section Steps

variable {s : List Char}

theorem nextItem_cases {first : Bool} {next : Next (List Char)} (h : nextItem first s = .ok next) :
    (∃ rest, skipGap s = ']' :: rest ∧ next = .close rest) ∨
      (first = true ∧ ∃ c t, skipGap s = c :: t ∧ c ≠ ']' ∧ next = .part (c :: t)) ∨
      (first = false ∧ ∃ t, skipGap s = ',' :: t ∧ next = .part (skipGap t)) := by
  unfold nextItem at h
  split at h
  next => cases h
  next rest hgap =>
    cases h
    exact .inl ⟨rest, hgap, rfl⟩
  next c t hclose hgap =>
    split at h
    next hfirst =>
      cases h
      exact .inr (.inl ⟨hfirst, c, t, hgap, hclose, rfl⟩)
    next hfirst =>
      split at h
      next hcomma =>
        subst hcomma
        split at h
        next => cases h
        next => cases h
        next =>
          cases h
          exact .inr (.inr ⟨Bool.eq_false_iff.2 hfirst, t, hgap, rfl⟩)
      next => cases h

theorem nextQuote_cases {first : Bool} {next : Next (List Char)}
    (h : nextQuote first s = .ok next) :
    (∃ rest, skipGap s = '\x7d' :: rest ∧ next = .close rest) ∨
      (first = true ∧ ∃ t, skipGap s = '"' :: t ∧ next = .part t) ∨
      (first = false ∧ ∃ t u, skipGap s = ',' :: t ∧ skipGap t = '"' :: u ∧ next = .part u) := by
  unfold nextQuote at h
  split at h
  next => cases h
  next rest hgap =>
    cases h
    exact .inl ⟨rest, hgap, rfl⟩
  next c t hclose hgap =>
    split at h
    next hfirst =>
      split at h
      next hquote =>
        subst hquote
        cases h
        exact .inr (.inl ⟨hfirst, t, hgap, rfl⟩)
      next => cases h
    next hfirst =>
      split at h
      next hcomma =>
        subst hcomma
        split at h
        next => cases h
        next u hquote =>
          cases h
          exact .inr (.inr ⟨Bool.eq_false_iff.2 hfirst, t, u, hgap, hquote, rfl⟩)
        next => cases h
        next => cases h
      next => cases h

theorem nextKey_cases {first : Bool} {next : Next (Taken String)}
    (h : nextKey first s = .ok next) :
    (∃ rest, nextQuote first s = .ok (.close rest) ∧ next = .close rest) ∨
      (∃ t key, nextQuote first s = .ok (.part t) ∧ quoted t = .ok key ∧ next = .part key) := by
  obtain ⟨found, hfound, h⟩ := exists_of_bind_eq_ok (eq_ok_of_below h)
  cases found with
  | close rest =>
      cases h
      exact .inl ⟨rest, hfound, rfl⟩
  | part t =>
      obtain ⟨key, hkey, h⟩ := exists_of_bind_eq_ok h
      cases h
      exact .inr ⟨t, key, hfound, hkey, rfl⟩

end Steps

/-! ## Runs through containers -/

/-- The items of an array that are read one by one; `first` holds before the first one. -/
inductive ItemsRead (item : List Char → Except Fault (Taken α)) :
    Bool → List Char → List α → List Char → Prop where
  | close {first : Bool} {s rest : List Char} :
      nextItem first s = .ok (.close rest) → ItemsRead item first s [] rest
  | part {first : Bool} {s t u rest : List Char} {a : α} {more : List α} :
      nextItem first s = .ok (.part t) → item t = .ok (a, u) → ItemsRead item false u more rest →
      ItemsRead item first s (a :: more) rest

/-- The members of an object that are read one by one. -/
inductive MembersRead (value : List Char → Except Fault (Taken α)) :
    Bool → List Char → List (String × α) → List Char → Prop where
  | close {first : Bool} {s rest : List Char} :
      nextKey first s = .ok (.close rest) → MembersRead value first s [] rest
  | part {first : Bool} {s t u w rest : List Char} {key : String} {a : α}
      {more : List (String × α)} :
      nextKey first s = .ok (.part (key, t)) → colon t = .ok u → value u = .ok (a, w) →
      MembersRead value false w more rest → MembersRead value first s ((key, a) :: more) rest

theorem itemsRead_of_items {item : List Char → Except Fault (Taken α)} {fuel i : Nat}
    {s rest : List Char} {all : List α} (h : items item fuel i s = .ok (all, rest)) :
    ItemsRead item (i == 0) s all rest := by
  induction fuel generalizing i s all with
  | zero => cases h
  | succ fuel ih =>
      obtain ⟨next, hnext, h⟩ := exists_of_bind_eq_ok h
      cases next with
      | close after =>
          cases h
          exact .close hnext
      | part t =>
          obtain ⟨⟨a, u⟩, hitem, h⟩ := exists_of_bind_eq_ok h
          obtain ⟨⟨more, after⟩, hmore, h⟩ := exists_of_bind_eq_ok h
          cases h
          exact .part hnext (eq_ok_of_below hitem) (ih hmore)

/-- The members are gathered from the last to the first, and there was fuel for all of them. -/
theorem exists_membersRead {value : List Char → Except Fault (Taken α)} {fuel : Nat}
    {first : Bool} {gathered all : List (String × α)} {s rest : List Char}
    (h : members (gather value) fuel first gathered s = .ok (all, rest)) :
    ∃ ms, all = ms.reverse ++ gathered ∧ ms.length < fuel ∧ MembersRead value first s ms rest := by
  induction fuel generalizing first gathered s with
  | zero => cases h
  | succ fuel ih =>
      obtain ⟨next, hnext, h⟩ := exists_of_bind_eq_ok h
      cases next with
      | close after =>
          cases h
          exact ⟨[], rfl, Nat.succ_pos fuel, .close hnext⟩
      | part key =>
          obtain ⟨key, t⟩ := key
          obtain ⟨⟨more, w⟩, hstep, h⟩ := exists_of_bind_eq_ok h
          obtain ⟨⟨a, w'⟩, hmember, hstep⟩ := exists_of_bind_eq_ok hstep
          obtain ⟨u, hcolon, hvalue⟩ := exists_of_bind_eq_ok hmember
          cases hstep
          obtain ⟨ms, rfl, hlength, hread⟩ := ih h
          refine ⟨(key, a) :: ms, ?_, Nat.succ_lt_succ hlength, ?_⟩
          · simp
          · exact .part hnext hcolon (eq_ok_of_below hvalue) hread

theorem membersRead_of_named {value : List Char → Except Fault (Taken α)} {s rest : List Char}
    {ms : List (String × α)} (h : named value s = .ok (ms, rest)) :
    ms.length < s.length + 1 ∧ MembersRead value true s ms rest := by
  rw [named_eq] at h
  obtain ⟨⟨gathered, t⟩, hmembers, h⟩ := exists_of_bind_eq_ok h
  obtain ⟨ms', rfl, hlength, hread⟩ := exists_membersRead hmembers
  cases h
  rw [List.append_nil, List.reverse_reverse]
  exact ⟨hlength, hread⟩

/-! ## Values -/

/-- What stood in a text from which a value was read, kind by kind. -/
inductive RawRead : Nat → List Char → Value → List Char → Prop where
  | null {room : Nat} {s t rest : List Char} :
      skipGap s = 'n' :: t → word ['u', 'l', 'l'] t = .ok rest → RawRead room s .null rest
  | true {room : Nat} {s t rest : List Char} :
      skipGap s = 't' :: t → word ['r', 'u', 'e'] t = .ok rest → RawRead room s (.bool true) rest
  | false {room : Nat} {s t rest : List Char} :
      skipGap s = 'f' :: t → word ['a', 'l', 's', 'e'] t = .ok rest →
      RawRead room s (.bool false) rest
  | string {room : Nat} {s t rest : List Char} {text : String} :
      skipGap s = '"' :: t → quoted t = .ok (text, rest) → RawRead room s (.string text) rest
  | array {room : Nat} {s t rest : List Char} {vs : List Value} :
      skipGap s = '[' :: t → ItemsRead (raw room) true t vs rest →
      RawRead (room + 1) s (.array vs) rest
  | object {room : Nat} {s t rest : List Char} {ms : List (String × Value)} :
      skipGap s = '\x7b' :: t → ms.length < t.length + 1 → MembersRead (raw room) true t ms rest →
      RawRead (room + 1) s (.object ms) rest
  | negative {room : Nat} {s t rest : List Char} {n : Number} :
      skipGap s = '-' :: t → number true t = .ok (n, rest) → RawRead room s (.number n) rest
  | positive {room : Nat} {s t rest : List Char} {c : Char} {n : Number} :
      skipGap s = c :: t → isDigit c = true → number false (c :: t) = .ok (n, rest) →
      RawRead room s (.number n) rest

theorem rawRead_of_raw {room : Nat} {s rest : List Char} {v : Value}
    (h : raw room s = .ok (v, rest)) : RawRead room s v rest := by
  rw [raw] at h
  split at h
  case h_1 => cases h
  case h_2 t hgap =>
    obtain ⟨rest, hword, h⟩ := exists_of_bind_eq_ok h
    cases h
    exact .null hgap hword
  case h_3 t hgap =>
    obtain ⟨rest, hword, h⟩ := exists_of_bind_eq_ok h
    cases h
    exact .true hgap hword
  case h_4 t hgap =>
    obtain ⟨rest, hword, h⟩ := exists_of_bind_eq_ok h
    cases h
    exact .false hgap hword
  case h_5 t hgap =>
    obtain ⟨⟨text, rest⟩, hquoted, h⟩ := exists_of_bind_eq_ok h
    cases h
    exact .string hgap hquoted
  case h_6 t hgap =>
    cases room with
    | zero => cases h
    | succ room =>
        obtain ⟨⟨vs, rest⟩, hitems, h⟩ := exists_of_bind_eq_ok h
        cases h
        exact .array hgap (itemsRead_of_items hitems)
  case h_7 t hgap =>
    cases room with
    | zero => cases h
    | succ room =>
        obtain ⟨⟨ms, rest⟩, hmembers, h⟩ := exists_of_bind_eq_ok h
        cases h
        obtain ⟨hlength, hread⟩ := membersRead_of_named hmembers
        exact .object hgap hlength hread
  case h_8 t hgap =>
    obtain ⟨⟨n, rest⟩, hnumber, h⟩ := exists_of_bind_eq_ok h
    cases h
    exact .negative hgap hnumber
  case h_9 c t _ _ _ _ _ _ _ hgap =>
    split at h
    case isTrue hdigit =>
      obtain ⟨⟨n, rest⟩, hnumber, h⟩ := exists_of_bind_eq_ok h
      cases h
      exact .positive hgap hdigit hnumber
    case isFalse => cases h

end TypedJson.Reader
