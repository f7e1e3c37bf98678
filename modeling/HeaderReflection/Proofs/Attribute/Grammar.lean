import HeaderReflection.Container.Build
import HeaderReflection.Proofs.Attribute.RoundTrip

/-!
# The grammar of attributes

A list of attributes is blank, or it has items with commas between them and perhaps one behind the
last. An item is a key alone, or a key with a value in parentheses. What stands between these tells
by its first character which kind of value it is. Reading a text finds the attributes that the text
derives, and no text derives any others.

* `ListText`, `ItemText`, `ValueText`: what a text derives.
* `listText_of_readList`: what is read is derived.
* `readList_listText`: what is derived is read.
* `parseAttributes_eq_ok_iff`: a text is read as the attributes that it derives, and is reported
  as malformed if it derives none.
-/

namespace HeaderReflection

namespace Attribute

open Text (Position isBlank isWordChar)

/-! ## Texts -/

/-- A run of blanks, which may be empty. -/
def IsBlanks (cs : List Char) : Prop :=
  ∀ c ∈ cs, isBlank c = true

/-- What stands between two quotes, and the text that it spells. -/
inductive Quoted : List Char → List Char → Prop
  | nil : Quoted [] []
  | escape (c : Char) {cs s : List Char} (rest : Quoted cs s) :
      Quoted ('\\' :: c :: cs) (unescape c :: s)
  | plain {c : Char} {cs s : List Char} (hescape : c ≠ '\\') (hquote : c ≠ '\x22')
      (rest : Quoted cs s) : Quoted (c :: cs) (c :: s)

/-- A literal, and the finite number that it denotes without the letters f behind it. -/
structure LiteralText (cs : List Char) (x : Number) : Prop where
  chars : ∀ c ∈ cs, isLiteralChar c = true
  value : Number.read? (trimSuffix cs) = some x

/-- A literal behind a bar. -/
inductive BarText : List Char → Number → Prop
  | mk {b b' cs : List Char} {x : Number} (hb : IsBlanks b) (hb' : IsBlanks b')
      (literal : LiteralText cs x) : BarText (b ++ '|' :: (b' ++ cs)) x

/-- A number, or a range of two or three numbers whose ends are in order. -/
inductive NumericText : List Char → AttributeValue → Prop
  | number {cs : List Char} {x : Number} (literal : LiteralText cs x) :
      NumericText cs (.number x)
  | range {cs ds : List Char} {low high : Number} (hlow : LiteralText cs low)
      (hhigh : BarText ds high) (order : low.exceeds high = false) :
      NumericText (cs ++ ds) (range low high .one)
  | stepped {cs ds es : List Char} {low high step : Number} (hlow : LiteralText cs low)
      (hhigh : BarText ds high) (hstep : BarText es step) (order : low.exceeds high = false) :
      NumericText (cs ++ (ds ++ es)) (Attribute.range low high step)

/-- The word of a flag. -/
def flagWord (b : Bool) : List Char :=
  (if b then "true" else "false").toList

mutual

/-- The text of a list, and the attributes that it derives. -/
inductive ListText : List Char → List (String × AttributeValue) → Prop
  | blank {b : List Char} (hb : IsBlanks b) : ListText b []
  | last {b cs b' : List Char} {key : String} {value : AttributeValue} (hb : IsBlanks b)
      (item : ItemText cs key value) (hb' : IsBlanks b') :
      ListText (b ++ (cs ++ b')) [(key, value)]
  | more {b cs b' ds : List Char} {key : String} {value : AttributeValue}
      {m : List (String × AttributeValue)} (hb : IsBlanks b) (item : ItemText cs key value)
      (hb' : IsBlanks b') (rest : ListText ds m) (new : key ∉ Attributes.keys m) :
      ListText (b ++ (cs ++ (b' ++ ',' :: ds))) ((key, value) :: m)

/-- The text of an item, with its key and its value. -/
inductive ItemText : List Char → String → AttributeValue → Prop
  | bare {key : String} (hk : IsKey key) : ItemText key.toList key (.flag true)
  | argument {key : String} {b cs : List Char} {value : AttributeValue} (hk : IsKey key)
      (hb : IsBlanks b) (inner : ValueText cs value) :
      ItemText (key.toList ++ (b ++ '(' :: (cs ++ [')']))) key value

/-- What stands between the parentheses of an item, and the value that it derives. -/
inductive ValueText : List Char → AttributeValue → Prop
  | text {b cs b' s : List Char} (hb : IsBlanks b) (quoted : Quoted cs s) (hb' : IsBlanks b') :
      ValueText (b ++ '\x22' :: (cs ++ '\x22' :: b')) (.text (String.ofList s))
  | numeric {b cs b' : List Char} {value : AttributeValue} (hb : IsBlanks b)
      (opens : cs.head?.any opensNumber = true) (numeric : NumericText cs value)
      (hb' : IsBlanks b') : ValueText (b ++ (cs ++ b')) value
  | flag {b b' : List Char} (hb : IsBlanks b) (x : Bool) (hb' : IsBlanks b') :
      ValueText (b ++ (flagWord x ++ b')) (.flag x)
  | nested {cs : List Char} {m : List (String × AttributeValue)} (list : ListText cs m)
      (opens : ∀ c ∈ (cs.dropWhile isBlank).head?, c ≠ '\x22' ∧ opensNumber c = false)
      (word : ∀ b x b', IsBlanks b → IsBlanks b' → cs ≠ b ++ (flagWord x ++ b')) :
      ValueText cs (.nested m)

end

/-- A literal has a character at least. -/
theorem LiteralText.ne_nil {cs : List Char} {x : Number} (h : LiteralText cs x) : cs ≠ [] := by
  rintro rfl
  cases h.value

theorem NumericText.ne_nil {cs : List Char} {value : AttributeValue} (h : NumericText cs value) :
    cs ≠ [] := by
  cases h with
  | number literal => exact literal.ne_nil
  | range hlow => exact List.append_ne_nil_of_left_ne_nil hlow.ne_nil _
  | stepped hlow => exact List.append_ne_nil_of_left_ne_nil hlow.ne_nil _

/-! ## Blanks -/

theorem IsBlanks.nil : IsBlanks [] := by
  simp [IsBlanks]

theorem IsBlanks.append {b b' : List Char} (h : IsBlanks b) (h' : IsBlanks b') :
    IsBlanks (b ++ b') :=
  List.forall_mem_append.2 ⟨h, h'⟩

/-- Blanks stop a run of any class that has none of them. -/
theorem IsBlanks.stop {p : Char → Bool} {b rest : List Char} (hb : IsBlanks b)
    (hp : ∀ c, p c = true → isBlank c = false) (hrest : ∀ c ∈ rest.head?, p c = false) :
    ∀ c ∈ (b ++ rest).head?, p c = false := by
  intro c hc
  cases b with
  | nil => exact hrest c hc
  | cons d b =>
    obtain rfl := Option.some.inj hc
    rw [Bool.eq_false_iff]
    intro hd
    have hblank := hp d hd
    rw [hb d List.mem_cons_self] at hblank
    cases hblank

theorem exists_blanks (r : Reader) :
    ∃ b, IsBlanks b ∧ r.rest = b ++ r.skipBlanks.rest ∧
      ∀ c ∈ r.skipBlanks.rest.head?, isBlank c = false := by
  refine ⟨r.rest.takeWhile isBlank, fun c => List.mem_takeWhile_imp,
    List.takeWhile_append_dropWhile.symm, fun c hc => ?_⟩
  have hnot := List.head?_dropWhile_not isBlank r.rest
  change c ∈ (r.rest.dropWhile isBlank).head? at hc
  rw [Option.mem_def.1 hc] at hnot
  simpa using hnot

theorem rest_skipBlanks (r : Reader) : r.skipBlanks.rest = r.rest.dropWhile isBlank := rfl

theorem dropWhile_blanks {b rest : List Char} (hb : IsBlanks b)
    (h : ∀ c ∈ rest.head?, isBlank c = false) : (b ++ rest).dropWhile isBlank = rest :=
  Text.dropWhile_run hb h

theorem skipBlanks_of_rest {r : Reader} {b rest : List Char} (hr : r.rest = b ++ rest)
    (hb : IsBlanks b) (h : ∀ c ∈ rest.head?, isBlank c = false) : r.skipBlanks.rest = rest := by
  rw [rest_skipBlanks, hr, dropWhile_blanks hb h]

/-! ## What is read is derived -/

section Sound

variable {r r' : Reader}

theorem rest_next {c : Char} (h : r.head? = some c) : r.rest = c :: r.next.rest := by
  obtain ⟨position, rest⟩ := r
  cases rest with
  | nil => cases h
  | cons d rest => exact congrArg (· :: rest) (Option.some.inj h)

theorem next_of_rest {c : Char} {rest : List Char} (h : r.rest = c :: rest) :
    r.head? = some c ∧ r.next.rest = rest := by
  have hhead : r.head? = some c := by rw [Reader.head?, h]; rfl
  exact ⟨hhead, (List.cons.inj ((rest_next hhead).symm.trans h)).2⟩

theorem rest_of_readKey {key : String} (h : readKey r = .ok (key, r')) :
    r.rest = key.toList ++ r'.rest := by
  unfold readKey at h
  split at h
  · cases h
  · rename_i cs _
    cases Except.ok.inj h
    rw [String.toList_ofList]
    exact List.takeWhile_append_dropWhile.symm

theorem quoted_of_readText {position : Position} {cs s : List Char}
    (h : readText position cs = .ok (s, r')) :
    ∃ body, cs = body ++ '\x22' :: r'.rest ∧ Quoted body s := by
  fun_induction readText position cs generalizing s r' with
  | case1 => cases h
  | case2 => cases h
  | case3 position c rest ih =>
    obtain ⟨⟨s, r⟩, hread, hs⟩ := map_eq_ok_iff.1 h
    cases hs
    obtain ⟨body, rfl, hquoted⟩ := ih hread
    exact ⟨'\\' :: c :: body, rfl, hquoted.escape c⟩
  | case4 position rest _ _ =>
    cases Except.ok.inj h
    exact ⟨[], rfl, .nil⟩
  | case5 position c rest hend hescape hquote ih =>
    obtain ⟨⟨s, r⟩, hread, hs⟩ := map_eq_ok_iff.1 h
    cases hs
    obtain ⟨body, rfl, hquoted⟩ := ih hread
    refine ⟨c :: body, rfl, .plain ?_ hquote hquoted⟩
    rintro rfl
    cases body <;> exact hescape _ _ rfl rfl

theorem literalText_of_readNumber {x : Number} (h : readNumber r = .ok (x, r')) :
    ∃ cs, r.rest = cs ++ r'.rest ∧ LiteralText cs x := by
  unfold readNumber at h
  dsimp only at h
  split at h
  · rename_i y hy
    cases Except.ok.inj h
    exact ⟨_, List.takeWhile_append_dropWhile.symm, fun c => List.mem_takeWhile_imp, hy⟩
  · cases h

theorem barTexts_of_readBounds {fuel : Nat} {xs : List Number}
    (h : readBounds fuel r = .ok (xs, r')) :
    ∃ parts b, r.rest = parts.flatten ++ (b ++ r'.rest) ∧ IsBlanks b ∧
      List.Forall₂ BarText parts xs := by
  induction fuel generalizing r r' xs with
  | zero =>
    cases Except.ok.inj h
    exact ⟨[], [], rfl, .nil, .nil⟩
  | succ fuel ih =>
    obtain ⟨b, hb, hrest, -⟩ := exists_blanks r
    rw [readBounds] at h
    split at h
    · rename_i hbar
      obtain ⟨⟨x, r₁⟩, hx, h⟩ := bind_eq_ok_iff.1 h
      obtain ⟨⟨ys, r₂⟩, hys, h⟩ := bind_eq_ok_iff.1 h
      cases Except.ok.inj h
      obtain ⟨cs, hcs, hliteral⟩ := literalText_of_readNumber hx
      obtain ⟨b', hb', hrest', -⟩ := exists_blanks r.skipBlanks.next
      obtain ⟨parts, b'', hparts, hb'', hall⟩ := ih hys
      refine ⟨_ :: parts, b'', ?_, hb'', .cons (.mk hb hb' hliteral) hall⟩
      rw [hrest, rest_next hbar, hrest', hcs, hparts]
      simp
    · cases Except.ok.inj h
      exact ⟨[], b, hrest, hb, .nil⟩

/-- A literal with the literals behind bars is a value if there are no more than three. -/
theorem numericText_of_numericValue {cs : List Char} {parts : List (List Char)} {x : Number}
    {xs : List Number} {value : AttributeValue} (hx : LiteralText cs x)
    (hxs : List.Forall₂ BarText parts xs) (h : numericValue x xs = .ok value) :
    NumericText (cs ++ parts.flatten) value := by
  unfold numericValue at h
  split at h
  · cases hxs
    cases Except.ok.inj h
    simpa using NumericText.number hx
  · obtain _ | ⟨hhigh, _ | _⟩ := hxs
    split at h
    · cases h
    · rename_i order
      cases Except.ok.inj h
      simpa using NumericText.range hx hhigh (by simpa using order)
  · obtain _ | ⟨hhigh, _ | ⟨hstep, _ | _⟩⟩ := hxs
    split at h
    · cases h
    · rename_i order
      cases Except.ok.inj h
      simpa using NumericText.stepped hx hhigh hstep (by simpa using order)
  · cases h

theorem numericText_of_readNumeric {value : AttributeValue} (h : readNumeric r = .ok (value, r')) :
    ∃ cs b, r.rest = cs ++ (b ++ r'.rest) ∧ IsBlanks b ∧ NumericText cs value := by
  unfold readNumeric at h
  obtain ⟨⟨x, r₁⟩, hx, h⟩ := bind_eq_ok_iff.1 h
  obtain ⟨⟨xs, r₂⟩, hxs, h⟩ := bind_eq_ok_iff.1 h
  dsimp only at h hxs
  split at h
  · rename_i hvalue
    cases Except.ok.inj h
    obtain ⟨cs, hcs, hliteral⟩ := literalText_of_readNumber hx
    obtain ⟨parts, b, hparts, hb, hall⟩ := barTexts_of_readBounds hxs
    refine ⟨_, b, ?_, hb, numericText_of_numericValue hliteral hall hvalue⟩
    rw [hcs, hparts, List.append_assoc]
  · cases h

theorem flagWord_of_readFlag? {x : Bool} (h : readFlag? r = some (x, r')) :
    ∃ b, r.rest = flagWord x ++ (b ++ r'.rest) ∧ IsBlanks b ∧ r'.rest.head? = some ')' := by
  have hword := List.takeWhile_append_dropWhile (p := isWordChar) (l := r.rest)
  obtain ⟨b, hb, hrest, -⟩ := exists_blanks (r.dropWhile isWordChar)
  unfold readFlag? at h
  dsimp only at h
  split at h
  · rename_i hclose
    have hall : r.rest = r.rest.takeWhile isWordChar ++
        (b ++ (r.dropWhile isWordChar).skipBlanks.rest) := by
      rw [← hrest]
      exact hword.symm
    split at h
    · rename_i htrue
      cases Option.some.inj h
      rw [htrue] at hall
      exact ⟨b, hall, hb, hclose⟩
    · split at h
      · rename_i hfalse
        cases Option.some.inj h
        rw [hfalse] at hall
        exact ⟨b, hall, hb, hclose⟩
      · cases h
  · cases h

/-- The reader of nested lists gives what their texts derive. -/
def DerivesLists (readNested : Reader → Except AttributeFault (Attributes × Reader)) : Prop :=
  ∀ r m r', readNested r = .ok (m, r') →
    ∃ cs, r.rest = cs ++ r'.rest ∧ ListText cs m ∧ r'.rest.head? = some ')'

theorem ListText.prepend {b cs : List Char} {m : Attributes} (hb : IsBlanks b)
    (h : ListText cs m) : ListText (b ++ cs) m := by
  cases h with
  | blank hb' => exact .blank (hb.append hb')
  | last hb' item hb'' =>
    rw [← List.append_assoc]
    exact .last (hb.append hb') item hb''
  | more hb' item hb'' rest new =>
    rw [← List.append_assoc]
    exact .more (hb.append hb') item hb'' rest new

/-- A flag's word is read as a flag where nothing but blanks stands before the parenthesis. -/
theorem readFlag?_flagWord {x : Bool} {b rest : List Char} (hb : IsBlanks b)
    (hr : r.rest = flagWord x ++ (b ++ ')' :: rest)) :
    ∃ r', readFlag? r = some (x, r') ∧ r'.rest = ')' :: rest := by
  have hword : ∀ c ∈ flagWord x, isWordChar c = true := by
    cases x <;> decide
  have hstop : ∀ c ∈ (b ++ ')' :: rest).head?, isWordChar c = false :=
    hb.stop (fun _ => Text.isBlank_eq_false_of_isWordChar) (by simp; decide)
  have hafter : (r.dropWhile isWordChar).skipBlanks.rest = ')' :: rest := by
    refine skipBlanks_of_rest (b := b) ?_ hb (by simp; decide)
    show r.rest.dropWhile isWordChar = _
    rw [hr, Text.dropWhile_run hword hstop]
  refine ⟨(r.dropWhile isWordChar).skipBlanks, ?_, hafter⟩
  unfold readFlag? Reader.head?
  simp only [hafter, hr, Text.takeWhile_run hword hstop]
  cases x <;> rfl

/-- A list is a value where the reader stands at no value of another kind. -/
theorem valueText_of_list {cs rest : List Char} {m : Attributes}
    (hcs : r.skipBlanks.rest = cs ++ ')' :: rest) (list : ListText cs m)
    (hquote : r.skipBlanks.head? ≠ some '\x22')
    (hopens : ¬r.skipBlanks.head?.any opensNumber = true)
    (hflag : readFlag? r.skipBlanks = none) :
    ∃ ds, r.rest = ds ++ ')' :: rest ∧ ValueText ds (.nested m) := by
  obtain ⟨b, hb, hrest, hfirst⟩ := exists_blanks r
  refine ⟨b ++ cs, by rw [hrest, hcs, List.append_assoc],
    .nested (list.prepend hb) (fun c hc => ?_) fun b₁ x b₂ hb₁ hb₂ he => ?_⟩
  · -- The first character of the list is the one that the reader stands at.
    have hcs' : ∀ d ∈ cs.head?, isBlank d = false := fun d hd =>
      hfirst d (hcs ▸ List.mem_head?_append_of_mem_head? hd)
    rw [dropWhile_blanks hb hcs'] at hc
    have hhead : r.skipBlanks.head? = some c := by
      unfold Reader.head?
      rw [hcs]
      exact List.mem_head?_append_of_mem_head? hc
    exact ⟨fun hq => hquote (hq ▸ hhead), by simpa [hhead] using hopens⟩
  · have hword : r.skipBlanks.rest = flagWord x ++ (b₂ ++ ')' :: rest) := by
      refine skipBlanks_of_rest (b := b₁) ?_ hb₁ ?_
      · rw [hrest, hcs, ← List.append_assoc, he]
        simp
      · cases x <;> simp [flagWord] <;> decide
    obtain ⟨s, hsome, -⟩ := readFlag?_flagWord hb₂ hword
    rw [hflag] at hsome
    cases hsome

theorem valueText_of_readValue {readNested : Reader → Except AttributeFault (Attributes × Reader)}
    (hnested : DerivesLists readNested) {value : AttributeValue}
    (h : readValue readNested r.skipBlanks = .ok (value, r')) :
    ∃ cs, r.rest = cs ++ r'.skipBlanks.rest ∧ ValueText cs value := by
  obtain ⟨b, hb, hrest, -⟩ := exists_blanks r
  obtain ⟨b', hb', hrest', -⟩ := exists_blanks r'
  unfold readValue at h
  split at h
  · rename_i hquote
    obtain ⟨⟨s, r₁⟩, hread, hs⟩ := map_eq_ok_iff.1 h
    cases hs
    obtain ⟨body, hbody, hquoted⟩ := quoted_of_readText hread
    refine ⟨_, ?_, .text hb hquoted hb'⟩
    rw [hrest, rest_next hquote, hbody, hrest']
    simp
  · rename_i hquote
    split at h
    · rename_i hopens
      obtain ⟨cs, b'', hcs, hb'', hnumeric⟩ := numericText_of_readNumeric h
      have hne : cs ≠ [] := hnumeric.ne_nil
      refine ⟨_, ?_, .numeric hb ?_ hnumeric (hb''.append hb')⟩
      · rw [hrest, hcs, hrest']
        simp
      · unfold Reader.head? at hopens
        rwa [hcs, List.head?_append_of_ne_nil _ hne] at hopens
    · rename_i hopens
      split at h
      · rename_i x s hflag
        cases Except.ok.inj h
        obtain ⟨b'', hword, hb'', -⟩ := flagWord_of_readFlag? hflag
        refine ⟨_, ?_, .flag hb x (hb''.append hb')⟩
        rw [hrest, hword, hrest']
        simp
      · rename_i hflag
        obtain ⟨⟨m, s⟩, hm, hv⟩ := map_eq_ok_iff.1 h
        cases hv
        obtain ⟨cs, hcs, hlist, hend⟩ := hnested _ _ _ hm
        have hstop : r'.skipBlanks.rest = r'.rest := by
          refine skipBlanks_of_rest (b := []) rfl .nil fun c hc => ?_
          cases Option.some.inj (hend.symm.trans hc)
          decide
        obtain ⟨rest, hparen⟩ := List.head?_eq_some_iff.1 hend
        rw [hparen] at hcs hstop
        rw [hstop]
        exact valueText_of_list hcs hlist hquote hopens hflag

/-- What stands behind a key is nothing for a flag that is set, or a value in parentheses. -/
theorem valueText_of_readArgument
    {readNested : Reader → Except AttributeFault (Attributes × Reader)}
    (hnested : DerivesLists readNested) {value : AttributeValue}
    (h : readArgument readNested r = .ok (value, r')) :
    (value = .flag true ∧ r' = r) ∨
      ∃ cs, r.rest = '(' :: (cs ++ ')' :: r'.rest) ∧ ValueText cs value := by
  unfold readArgument at h
  split at h
  · rename_i hopen
    obtain ⟨⟨v, s⟩, hv, h⟩ := bind_eq_ok_iff.1 h
    dsimp only at h
    split at h
    · rename_i hclose
      cases Except.ok.inj h
      obtain ⟨cs, hcs, hvalue⟩ := valueText_of_readValue hnested hv
      refine .inr ⟨cs, ?_, hvalue⟩
      rw [rest_next hopen, hcs, rest_next hclose]
    · cases h
  · cases Except.ok.inj h
    exact .inl ⟨rfl, rfl⟩

theorem mem_keys_concat {m : Attributes} {key k : String} {value : AttributeValue} :
    k ∈ Attributes.keys (m ++ [(key, value)]) ↔ k ∈ m.keys ∨ k = key := by
  simp [Attributes.keys]

/-- A key and what is read behind it are an item, with blanks behind it. -/
theorem itemText_of_read {readNested : Reader → Except AttributeFault (Attributes × Reader)}
    (hnested : DerivesLists readNested) {key : String} {value : AttributeValue} {r₁ : Reader}
    (hkey : readKey r = .ok (key, r₁))
    (hvalue : readArgument readNested r₁.skipBlanks = .ok (value, r')) :
    ∃ cs b, r.rest = cs ++ (b ++ r'.skipBlanks.rest) ∧ IsBlanks b ∧ ItemText cs key value := by
  have hk := (readKey_eq_ok hkey).1
  obtain ⟨b, hb, hrest, -⟩ := exists_blanks r₁
  obtain ⟨b', hb', hrest', -⟩ := exists_blanks r'
  rcases valueText_of_readArgument hnested hvalue with ⟨rfl, rfl⟩ | ⟨cs, hcs, hinner⟩
  · refine ⟨_, b, ?_, hb, .bare hk⟩
    rw [rest_of_readKey hkey, skipBlanks_skipBlanks, ← hrest]
  · refine ⟨_, b', ?_, hb', .argument hk hb hinner⟩
    rw [rest_of_readKey hkey, hrest, hcs, hrest']
    simp

/-- **What is read of a list is what its text derives.** Its keys are new to the attributes before
it. -/
theorem listText_of_readList {fuel : Nat} {nested : Bool} {m m' : Attributes}
    (h : readList fuel nested m r = .ok (m', r')) :
    ∃ cs more, r.rest = cs ++ r'.rest ∧ m' = m ++ more ∧ ListText cs more ∧
      (∀ key ∈ Attributes.keys more, key ∉ m.keys) ∧ EndsList nested r'.rest := by
  induction fuel generalizing nested m m' r r' with
  | zero =>
    rw [readList] at h
    cases h
  | succ fuel ih =>
    have hnested : DerivesLists (readList fuel true []) := fun s n s' hs => by
      obtain ⟨cs, more, hcs, rfl, hlist, -, hend⟩ := ih hs
      exact ⟨cs, hcs, hlist, hend⟩
    obtain ⟨b, hb, hrest, -⟩ := exists_blanks r
    rcases readList_step h with
      ⟨rfl, rfl, hend⟩ | ⟨key, value, r₁, r₂, hkey, hvalue, hnew, hgo⟩
    · exact ⟨b, [], hrest, (List.append_nil _).symm, .blank hb, by simp [Attributes.keys], hend⟩
    · obtain ⟨cs, b', hcs, hb', hitem⟩ := itemText_of_read hnested hkey hvalue
      have hkeys := Attributes.contains_eq_false_iff.1 hnew
      rw [Attributes.insert_of_not_contains hnew] at hgo
      rcases hgo with ⟨rfl, rfl, hend⟩ | ⟨hcomma, hgo⟩
      · refine ⟨_, [(key, value)], ?_, rfl, .last hb hitem hb', ?_, hend⟩
        · rw [hrest, hcs]
          simp
        · simpa [Attributes.keys] using hkeys
      · obtain ⟨ds, more, hds, rfl, hlist, hapart, hend⟩ := ih hgo
        simp only [mem_keys_concat, not_or] at hapart
        have hfresh : key ∉ Attributes.keys more := fun hk => (hapart key hk).2 rfl
        refine ⟨_, (key, value) :: more, ?_, by simp, .more hb hitem hb' hlist hfresh, ?_, hend⟩
        · rw [hrest, hcs, rest_next hcomma, hds]
          simp
        · simp only [Attributes.keys, List.map_cons, List.mem_cons]
          rintro k (rfl | hk)
          · exact hkeys
          · exact (hapart k hk).1

end Sound

/-! ## What is derived is read -/

section Complete

variable {r : Reader} {rest : List Char}

theorem readText_quoted {cs s : List Char} (h : Quoted cs s) (rest : List Char)
    (position : Position) :
    ∃ r', readText position (cs ++ '\x22' :: rest) = .ok (s, r') ∧ r'.rest = rest := by
  induction h generalizing position with
  | nil =>
    refine ⟨⟨position.advance '\x22', rest⟩, ?_, rfl⟩
    rw [List.nil_append, readText.eq_4 _ _ _ (by simp) (by simp), if_pos rfl]
  | escape c _ ih =>
    obtain ⟨r', hr, hrest⟩ := ih ((position.advance '\\').advance c)
    refine ⟨r', ?_, hrest⟩
    rw [List.cons_append, List.cons_append, readText, hr]
    rfl
  | @plain c cs s hescape hquote _ ih =>
    obtain ⟨r', hr, hrest⟩ := ih (position.advance c)
    refine ⟨r', ?_, hrest⟩
    rw [List.cons_append, readText.eq_4 _ _ _ (by simp [hescape]) (by simp [hescape]),
      if_neg hquote, hr]
    rfl

/-- A literal is read up to what stops it. -/
theorem readNumber_literalText {cs : List Char} {x : Number} (h : LiteralText cs x)
    (hr : r.rest = cs ++ rest) (hstop : ∀ c ∈ rest.head?, isLiteralChar c = false) :
    ∃ r', readNumber r = .ok (x, r') ∧ r'.rest = rest := by
  refine ⟨r.dropWhile isLiteralChar, ?_, ?_⟩
  · unfold readNumber
    rw [hr, Text.takeWhile_run h.chars hstop]
    simp only [h.value]
  · show r.rest.dropWhile isLiteralChar = rest
    rw [hr, Text.dropWhile_run h.chars hstop]

theorem isBlank_eq_false_of_isLiteralChar {c : Char} (h : isLiteralChar c = true) :
    isBlank c = false := by
  simp only [isLiteralChar, Text.isAsciiAlphanumeric, Bool.or_eq_true, beq_iff_eq] at h
  rcases h with ((((h | h) | rfl) | rfl) | rfl) | rfl
  · exact Text.isBlank_eq_false_of_isAlphanumeric (Text.isAlphanumeric_of_isAsciiLetter h)
  · exact Text.isBlank_eq_false_of_isAlphanumeric (Text.isAlphanumeric_of_isAsciiDigit h)
  all_goals decide

theorem isLiteralChar_of_opensNumber {c : Char} (h : opensNumber c = true) :
    isLiteralChar c = true := by
  simp only [opensNumber, Bool.or_eq_true] at h
  simp only [isLiteralChar, Text.isAsciiAlphanumeric, Bool.or_eq_true]
  tauto

/-- Blanks, bars and parentheses stop a literal. -/
theorem stops_literal_parts {parts : List (List Char)} {xs : List Number} {b : List Char}
    (h : List.Forall₂ BarText parts xs) (hb : IsBlanks b) :
    ∀ c ∈ (parts.flatten ++ (b ++ ')' :: rest)).head?, isLiteralChar c = false := by
  cases h with
  | nil =>
    exact hb.stop (fun _ => isBlank_eq_false_of_isLiteralChar) (by simp; decide)
  | cons hpart _ =>
    obtain ⟨hb₁, _, _⟩ := hpart
    rw [List.flatten_cons, List.append_assoc, List.append_assoc]
    exact hb₁.stop (fun _ => isBlank_eq_false_of_isLiteralChar) (by simp; decide)

theorem LiteralText.head_not_blank {cs : List Char} {x : Number} (h : LiteralText cs x)
    (rest : List Char) : ∀ c ∈ (cs ++ rest).head?, isBlank c = false := by
  intro c hc
  rw [List.head?_append_of_ne_nil _ h.ne_nil] at hc
  exact isBlank_eq_false_of_isLiteralChar (h.chars c (List.mem_of_head? hc))

theorem close_not_blank : ∀ c ∈ (')' :: rest).head?, isBlank c = false := by
  rintro c ⟨⟩
  decide

/-- Literals behind bars are read up to the parenthesis. -/
theorem readBounds_barTexts {fuel : Nat} {parts : List (List Char)} {xs : List Number}
    {b : List Char} (h : List.Forall₂ BarText parts xs) (hb : IsBlanks b)
    (hr : r.rest = parts.flatten ++ (b ++ ')' :: rest)) (hfuel : xs.length ≤ fuel) :
    ∃ r', readBounds fuel r = .ok (xs, r') ∧ r'.skipBlanks.rest = ')' :: rest := by
  induction h generalizing r fuel with
  | nil =>
    have hstop : r.skipBlanks.rest = ')' :: rest := skipBlanks_of_rest hr hb close_not_blank
    cases fuel with
    | zero => exact ⟨r, rfl, hstop⟩
    | succ fuel =>
      refine ⟨r.skipBlanks, ?_, by rw [skipBlanks_skipBlanks, hstop]⟩
      rw [readBounds, if_neg (by simp [Reader.head?, hstop])]
  | @cons part x parts xs hpart hparts ih =>
    obtain ⟨hb₁, hb₂, literal⟩ := hpart
    rename_i b₁ b₂ cs
    cases fuel with
    | zero => cases hfuel
    | succ fuel =>
      have hbar : r.skipBlanks.rest =
          '|' :: (b₂ ++ (cs ++ (parts.flatten ++ (b ++ ')' :: rest)))) :=
        skipBlanks_of_rest (b := b₁) (by rw [hr]; simp) hb₁ (by simp; decide)
      obtain ⟨hhead, hnext⟩ := next_of_rest hbar
      have hliteral : r.skipBlanks.next.skipBlanks.rest =
          cs ++ (parts.flatten ++ (b ++ ')' :: rest)) :=
        skipBlanks_of_rest hnext hb₂ (literal.head_not_blank _)
      obtain ⟨r₁, hx, hr₁⟩ :=
        readNumber_literalText literal hliteral (stops_literal_parts hparts hb)
      obtain ⟨r₂, hxs, hr₂⟩ := ih hr₁ (Nat.le_of_succ_le_succ hfuel)
      refine ⟨r₂, ?_, hr₂⟩
      rw [readBounds, if_pos hhead, hx, ok_bind]
      dsimp only
      rw [hxs]
      rfl

/-- The literals of a value. -/
theorem NumericText.exists_parts {cs : List Char} {value : AttributeValue}
    (h : NumericText cs value) :
    ∃ ds parts x xs, cs = ds ++ parts.flatten ∧ LiteralText ds x ∧
      List.Forall₂ BarText parts xs ∧ numericValue x xs = .ok value := by
  cases h with
  | number literal => exact ⟨_, [], _, [], by simp, literal, .nil, rfl⟩
  | @range _ ds _ _ hlow hhigh order =>
    refine ⟨_, [ds], _, _, by simp, hlow, .cons hhigh .nil, ?_⟩
    rw [numericValue, if_neg (by simp [order])]
  | @stepped _ ds es _ _ _ hlow hhigh hstep order =>
    refine ⟨_, [ds, es], _, _, by simp, hlow, .cons hhigh (.cons hstep .nil), ?_⟩
    rw [numericValue, if_neg (by simp [order])]

theorem length_le_of_barTexts {parts : List (List Char)} {xs : List Number}
    (h : List.Forall₂ BarText parts xs) : xs.length ≤ parts.flatten.length := by
  induction h with
  | nil => exact Nat.le_refl _
  | cons hpart _ ih =>
    obtain ⟨_, _, _⟩ := hpart
    simp only [List.length_cons, List.flatten_cons, List.length_append]
    omega

theorem readNumeric_numericText {cs b : List Char} {value : AttributeValue}
    (h : NumericText cs value) (hb : IsBlanks b) (hr : r.rest = cs ++ (b ++ ')' :: rest)) :
    ∃ r', readNumeric r = .ok (value, r') ∧ r'.skipBlanks.rest = ')' :: rest := by
  obtain ⟨ds, parts, x, xs, rfl, literal, hparts, hvalue⟩ := h.exists_parts
  rw [List.append_assoc] at hr
  obtain ⟨r₁, hx, hr₁⟩ := readNumber_literalText literal hr (stops_literal_parts hparts hb)
  have hfuel : xs.length ≤ r₁.rest.length := by
    have := length_le_of_barTexts hparts
    rw [hr₁, List.length_append]
    omega
  obtain ⟨r₂, hxs, hr₂⟩ := readBounds_barTexts hparts hb hr₁ hfuel
  refine ⟨r₂, ?_, hr₂⟩
  unfold readNumeric
  rw [hx, ok_bind]
  dsimp only
  rw [hxs, ok_bind]
  simp only [hvalue]

/-- The reader of nested lists reads their texts if no more than this many characters are left. -/
def ReadsLists (readNested : Reader → Except AttributeFault (Attributes × Reader)) (n : Nat) :
    Prop :=
  ∀ (r : Reader) cs m rest, ListText cs m → r.rest = cs ++ ')' :: rest → r.rest.length < n →
    ∃ r', readNested r.skipBlanks = .ok (m, r') ∧ r'.rest = ')' :: rest

section Nested

variable {readNested : Reader → Except AttributeFault (Attributes × Reader)} {n : Nat}

theorem isKey_flagWord (x : Bool) : ∃ key, key.toList = flagWord x ∧ IsKey key := by
  refine ⟨if x then "true" else "false", rfl, ?_⟩
  cases x <;> exact show IsKey _ by unfold IsKey; decide

/-- The word of a flag is a list too, so where another list stands there is no flag. -/
theorem readFlag?_eq_none_of_listText (hnested : ReadsLists readNested n) {cs : List Char}
    {m : Attributes} (list : ListText cs m) (hr : r.rest = cs ++ ')' :: rest)
    (hn : r.rest.length < n)
    (word : ∀ b x b', IsBlanks b → IsBlanks b' → cs ≠ b ++ (flagWord x ++ b')) :
    readFlag? r.skipBlanks = none := by
  rw [Option.eq_none_iff_forall_ne_some]
  rintro ⟨x, s⟩ hflag
  obtain ⟨b, hb, hrest, -⟩ := exists_blanks r
  obtain ⟨b', hword, hb', hclose⟩ := flagWord_of_readFlag? hflag
  obtain ⟨rest', hs⟩ := List.head?_eq_some_iff.1 hclose
  obtain ⟨key, hkey, hk⟩ := isKey_flagWord x
  have hlone : ListText (b ++ (flagWord x ++ b')) [(key, .flag true)] :=
    .last hb (hkey ▸ .bare hk) hb'
  have hr' : r.rest = (b ++ (flagWord x ++ b')) ++ ')' :: rest' := by
    rw [hrest, hword, hs]
    simp
  obtain ⟨r₁, hread, hr₁⟩ := hnested r _ _ _ list hr hn
  obtain ⟨r₂, hread', hr₂⟩ := hnested r _ _ _ hlone hr' hn
  cases hread.symm.trans hread'
  rw [← hr₂, hr₁, hr] at hr'
  exact word b x b' hb hb' (List.append_cancel_right hr')

/-- A list is read where no value of another kind stands. -/
theorem readValue_list (hnested : ReadsLists readNested n) {cs : List Char} {m : Attributes}
    (list : ListText cs m)
    (opens : ∀ c ∈ (cs.dropWhile isBlank).head?, c ≠ '\x22' ∧ opensNumber c = false)
    (word : ∀ b x b', IsBlanks b → IsBlanks b' → cs ≠ b ++ (flagWord x ++ b'))
    (hr : r.rest = cs ++ ')' :: rest) (hn : r.rest.length < n) :
    ∃ r', readValue readNested r.skipBlanks = .ok (.nested m, r') ∧
      r'.skipBlanks.rest = ')' :: rest := by
  obtain ⟨r₁, hread, hr₁⟩ := hnested r _ _ _ list hr hn
  refine ⟨r₁, ?_, skipBlanks_of_rest (b := []) hr₁ .nil close_not_blank⟩
  have hrest : r.skipBlanks.rest = cs.dropWhile isBlank ++ ')' :: rest := by
    rw [rest_skipBlanks, hr, Text.dropWhile_append_stop close_not_blank]
  have hhead : ∀ c ∈ r.skipBlanks.head?, c ≠ '\x22' ∧ opensNumber c = false := by
    rw [Reader.head?, hrest]
    intro c hc
    rcases hd : cs.dropWhile isBlank with _ | ⟨d, ds⟩
    · rw [hd] at hc
      cases Option.some.inj hc
      decide
    · rw [hd] at hc
      exact opens c (hd ▸ hc)
  have hquote : r.skipBlanks.head? ≠ some '\x22' := fun hc => (hhead _ hc).1 rfl
  rw [readValue, if_neg hquote,
    if_neg (by simpa [Option.any_eq_true] using fun c hc => (hhead c hc).2),
    readFlag?_eq_none_of_listText hnested list hr hn word, hread]
  rfl

theorem readValue_valueText (hnested : ReadsLists readNested n) {cs : List Char}
    {value : AttributeValue} (h : ValueText cs value) (hr : r.rest = cs ++ ')' :: rest)
    (hn : r.rest.length < n) :
    ∃ r', readValue readNested r.skipBlanks = .ok (value, r') ∧
      r'.skipBlanks.rest = ')' :: rest := by
  cases h with
  | @text b cs b' s hb quoted hb' =>
    have hopen : r.skipBlanks.rest = '\x22' :: (cs ++ '\x22' :: (b' ++ ')' :: rest)) :=
      skipBlanks_of_rest (by rw [hr]; simp) hb (by simp; decide)
    obtain ⟨hhead, hnext⟩ := next_of_rest hopen
    obtain ⟨r₁, hread, hr₁⟩ :=
      readText_quoted quoted (b' ++ ')' :: rest) r.skipBlanks.next.position
    refine ⟨r₁, ?_, skipBlanks_of_rest hr₁ hb' close_not_blank⟩
    rw [readValue, if_pos hhead, hnext, hread]
    rfl
  | @numeric b cs b' _ hb opens numeric hb' =>
    obtain ⟨c, hc, hopens⟩ := (Option.any_eq_true _ _).1 opens
    have hhead : (cs ++ (b' ++ ')' :: rest)).head? = some c := List.mem_head?_append_of_mem_head? hc
    have hopen : r.skipBlanks.rest = cs ++ (b' ++ ')' :: rest) := by
      refine skipBlanks_of_rest (b := b) (by rw [hr]; simp) hb fun d hd => ?_
      cases Option.some.inj (hhead.symm.trans hd)
      exact isBlank_eq_false_of_isLiteralChar (isLiteralChar_of_opensNumber hopens)
    obtain ⟨r₁, hread, hr₁⟩ := readNumeric_numericText numeric hb' hopen
    refine ⟨r₁, ?_, hr₁⟩
    have hquote : c ≠ '\x22' := by
      rintro rfl
      cases hopens
    rw [readValue, Reader.head?, hopen, hhead, if_neg (by simpa using hquote),
      if_pos (by simpa using hopens), hread]
  | @flag b b' hb x hb' =>
    have hopen : r.skipBlanks.rest = flagWord x ++ (b' ++ ')' :: rest) := by
      refine skipBlanks_of_rest (b := b) (by rw [hr]; simp) hb ?_
      cases x <;> simp [flagWord] <;> decide
    obtain ⟨r₁, hflag, hr₁⟩ := readFlag?_flagWord hb' hopen
    refine ⟨r₁, ?_, skipBlanks_of_rest (b := []) hr₁ .nil close_not_blank⟩
    have hhead : ∃ c, r.skipBlanks.head? = some c ∧ c ≠ '\x22' ∧ opensNumber c = false := by
      rw [Reader.head?, hopen]
      cases x
      · exact ⟨'f', rfl, by decide⟩
      · exact ⟨'t', rfl, by decide⟩
    obtain ⟨c, hc, hquote, hopens⟩ := hhead
    rw [readValue, hc, if_neg (by simpa using hquote), if_neg (by simp [hopens]), hflag]
  | nested list opens word => exact readValue_list hnested list opens word hr hn

theorem readArgument_valueText (hnested : ReadsLists readNested n) {cs : List Char}
    {value : AttributeValue} (h : ValueText cs value) (hr : r.rest = '(' :: (cs ++ ')' :: rest))
    (hn : r.rest.length ≤ n) :
    ∃ r', readArgument readNested r = .ok (value, r') ∧ r'.rest = rest := by
  obtain ⟨hopen, hnext⟩ := next_of_rest hr
  have hlength : r.next.rest.length < n := by
    rw [hr, List.length_cons] at hn
    rw [hnext]
    exact hn
  obtain ⟨s, hread, hs⟩ := readValue_valueText hnested h hnext hlength
  obtain ⟨hclose, hrest⟩ := next_of_rest hs
  refine ⟨s.skipBlanks.next, ?_, hrest⟩
  rw [readArgument, if_pos hopen, hread, ok_bind]
  dsimp only
  rw [if_pos hclose]

/-- An item is read up to the comma behind it or the end of its list. -/
theorem read_itemText (hnested : ReadsLists readNested n) {cs b : List Char} {key : String}
    {value : AttributeValue} (h : ItemText cs key value) (hb : IsBlanks b)
    (hr : r.rest = cs ++ (b ++ rest)) (hrest : Stops rest) (hn : r.rest.length ≤ n) :
    ∃ r₁ r₂, readKey r = .ok (key, r₁) ∧
      readArgument readNested r₁.skipBlanks = .ok (value, r₂) ∧ r₂.skipBlanks.rest = rest := by
  obtain ⟨position, text⟩ := r
  have hafter : ∀ c ∈ rest.head?, isBlank c = false := hrest.outside (by decide) (by decide)
  cases h with
  | bare hk =>
    obtain rfl : text = _ := hr
    have hstop : Reader.rest (.skipBlanks ⟨position.past key.toList, b ++ rest⟩) = rest :=
      skipBlanks_of_rest rfl hb hafter
    refine ⟨_, Reader.skipBlanks ⟨position.past key.toList, b ++ rest⟩,
      readKey_append hk ?_, ?_, ?_⟩
    · exact hb.stop (fun _ => isBlank_eq_false_of_isKeyChar)
        (hrest.outside (by decide) (by decide))
    · rw [readArgument, if_neg]
      rw [Reader.head?, hstop]
      intro hc
      rcases hrest _ hc with h | h <;> cases h
    · rw [skipBlanks_skipBlanks, hstop]
  | @argument _ b' cs _ hk hb' inner =>
    obtain rfl : text = key.toList ++ (b' ++ '(' :: (cs ++ ')' :: (b ++ rest))) := by
      rw [show text = _ from hr]
      simp
    have hopen : Reader.rest (.skipBlanks
        ⟨position.past key.toList, b' ++ '(' :: (cs ++ ')' :: (b ++ rest))⟩) =
          '(' :: (cs ++ ')' :: (b ++ rest)) :=
      skipBlanks_of_rest rfl hb' (by simp; decide)
    obtain ⟨r₂, hread, hr₂⟩ := readArgument_valueText hnested inner hopen (by
      rw [hopen]
      simp only [List.length_append] at hn ⊢
      omega)
    refine ⟨_, r₂, readKey_append hk ?_, hread, skipBlanks_of_rest hr₂ hb hafter⟩
    exact hb'.stop (fun _ => isBlank_eq_false_of_isKeyChar) (by simp; decide)

end Nested

theorem readList_skipBlanks (fuel : Nat) (nested : Bool) (m : Attributes) (r : Reader) :
    readList (fuel + 1) nested m r.skipBlanks = readList (fuel + 1) nested m r := by
  rw [readList.eq_2, readList.eq_2, skipBlanks_skipBlanks]

/-- An item starts with a character of its key. -/
theorem ItemText.head? {cs : List Char} {key : String} {value : AttributeValue}
    (h : ItemText cs key value) (rest : List Char) :
    ∃ c, (cs ++ rest).head? = some c ∧ isKeyChar c = true := by
  have hkey : ∀ ds, IsKey key → ∃ c, (key.toList ++ ds).head? = some c ∧ isKeyChar c = true := by
    intro ds hk
    obtain ⟨c, cs, hcs⟩ := List.exists_cons_of_ne_nil hk.1
    exact ⟨c, by rw [hcs]; rfl, hk.2 c (hcs ▸ List.mem_cons_self)⟩
  cases h with
  | bare hk => exact hkey _ hk
  | argument hk =>
    rw [List.append_assoc]
    exact hkey _ hk

/-- An item is the last of its list, or the list goes on behind a comma. -/
theorem readList_itemText {fuel : Nat} (nested : Bool) {acc : Attributes} {b cs b' : List Char}
    {key : String} {value : AttributeValue} (hnested : ReadsLists (readList fuel true []) fuel)
    (hb : IsBlanks b) (item : ItemText cs key value) (hb' : IsBlanks b') (hrest : Stops rest)
    (hr : r.rest = b ++ (cs ++ (b' ++ rest))) (hn : r.rest.length ≤ fuel)
    (hnew : key ∉ acc.keys) :
    ∃ s, s.rest = rest ∧
      (EndsList nested rest → readList (fuel + 1) nested acc r = .ok (acc ++ [(key, value)], s)) ∧
      (rest.head? = some ',' → readList (fuel + 1) nested acc r =
        readList fuel nested (acc ++ [(key, value)]) s.next) := by
  obtain ⟨c, hc, hkeyChar⟩ := item.head? (b' ++ rest)
  have hstart : r.skipBlanks.rest = cs ++ (b' ++ rest) := by
    refine skipBlanks_of_rest hr hb fun d hd => ?_
    cases Option.some.inj (hc.symm.trans hd)
    exact isBlank_eq_false_of_isKeyChar hkeyChar
  have hlength : r.skipBlanks.rest.length ≤ fuel := by
    rw [hr, List.length_append] at hn
    rw [hstart]
    omega
  obtain ⟨r₁, r₂, hkey, hvalue, hstop⟩ := read_itemText hnested item hb' hstart hrest hlength
  have hnew' := Attributes.contains_eq_false_iff.2 hnew
  have hclose : c ≠ ')' := by
    rintro rfl
    exact absurd hkeyChar (by decide)
  have hhead : r.skipBlanks.head? = some c := by rw [Reader.head?, hstart, hc]
  have hread : readList (fuel + 1) nested acc r = _ :=
    readList_entry hhead hclose hkey hvalue hnew'
  rw [Attributes.insert_of_not_contains hnew', Reader.head?, hstop] at hread
  refine ⟨r₂.skipBlanks, hstop, fun hend => ?_, fun hcomma => ?_⟩
  · cases nested with
    | true =>
      rw [show rest.head? = some ')' from hend] at hread
      exact hread
    | false =>
      rw [show rest = [] from hend] at hread
      exact hread
  · rw [hcomma] at hread
    exact hread

/-- **What a text derives is read of it**, behind attributes that have none of its keys. -/
theorem readList_listText {fuel : Nat} {nested : Bool} {acc m : Attributes} {cs : List Char}
    (h : ListText cs m) (hr : r.rest = cs ++ rest) (hend : EndsList nested rest)
    (hapart : ∀ key ∈ Attributes.keys m, key ∉ acc.keys) (hfuel : r.rest.length < fuel) :
    ∃ r', readList fuel nested acc r = .ok (acc ++ m, r') ∧ r'.rest = rest := by
  induction fuel generalizing nested acc m cs r rest with
  | zero => cases hfuel
  | succ fuel ih =>
    -- A nested list is shorter than the text of its item, so the fuel that is left reads it.
    have hnested : ReadsLists (readList fuel true []) fuel := by
      intro s ds n tail hlist hs hlength
      have hend : EndsList true (')' :: tail) := rfl
      have hapart : ∀ key ∈ Attributes.keys n, key ∉ Attributes.keys [] := by simp [Attributes.keys]
      obtain ⟨s', hread, hs'⟩ := ih hlist hs hend hapart hlength
      refine ⟨s', ?_, hs'⟩
      cases fuel with
      | zero => cases hlength
      | succ fuel =>
        rw [readList_skipBlanks]
        exact hread
    have hn := Nat.le_of_lt_succ hfuel
    cases h with
    | blank hb =>
      have hstart : r.skipBlanks.rest = rest :=
        skipBlanks_of_rest hr hb (hend.stops.outside (by decide) (by decide))
      refine ⟨r.skipBlanks, ?_, hstart⟩
      rw [readList.eq_2, Reader.head?, hstart, List.append_nil]
      cases nested with
      | true => rw [show rest.head? = some ')' from hend]; rfl
      | false => rw [show rest = [] from hend]; rfl
    | last hb item hb' =>
      obtain ⟨s, hs, hread, -⟩ := readList_itemText nested hnested hb item hb' hend.stops
        (by rw [hr]; simp) hn (hapart _ (by simp [Attributes.keys]))
      exact ⟨s, hread hend, hs⟩
    | @more b cs b' ds key value m hb item hb' list new =>
      have hsplit : r.rest = b ++ (cs ++ (b' ++ ',' :: (ds ++ rest))) := by
        rw [hr]
        simp
      obtain ⟨s, hs, -, hread⟩ := readList_itemText nested hnested hb item hb' (by simp [Stops])
        hsplit hn (hapart _ (by simp [Attributes.keys]))
      have hnext := (next_of_rest hs).2
      have hlength : s.next.rest.length < fuel := by
        rw [hr] at hn
        rw [hnext]
        simp only [List.length_append, List.length_cons] at hn ⊢
        omega
      have hapart' : ∀ k ∈ Attributes.keys m, k ∉ Attributes.keys (acc ++ [(key, value)]) :=
        fun k hk hmem => (mem_keys_concat.1 hmem).elim (hapart k (List.mem_cons_of_mem _ hk))
          fun he => new (he ▸ hk)
      obtain ⟨r', hgo, hr'⟩ := ih list hnext hend hapart' hlength
      refine ⟨r', ?_, hr'⟩
      rw [hread rfl, hgo, List.append_assoc, List.singleton_append]

end Complete

/-! ## Texts and the attributes they derive -/

/-- A text is read as what it derives. -/
theorem parseAt_eq_ok_iff (origin : Position) {cs : List Char} {m : Attributes} :
    parseAt origin cs = .ok m ↔ ListText cs m := by
  unfold parseAt
  rw [map_eq_ok_iff]
  constructor
  · rintro ⟨⟨n, r⟩, hread, rfl⟩
    obtain ⟨ds, more, hds, rfl, hlist, -, hend⟩ := listText_of_readList hread
    rw [show r.rest = [] from hend, List.append_nil] at hds
    obtain rfl : cs = ds := hds
    exact hlist
  · intro h
    have hrest : Reader.rest ⟨origin, cs⟩ = cs ++ [] := (List.append_nil cs).symm
    have hend : EndsList false [] := rfl
    have hapart : ∀ key ∈ Attributes.keys m, key ∉ Attributes.keys [] := by simp [Attributes.keys]
    obtain ⟨r, hread, -⟩ := readList_listText h hrest hend hapart (Nat.lt_succ_self _)
    exact ⟨_, hread, rfl⟩

/-- No text derives two lists of attributes. -/
theorem ListText.unique {cs : List Char} {m n : Attributes} (hm : ListText cs m)
    (hn : ListText cs n) : m = n := by
  have hread := (parseAt_eq_ok_iff .start).2 hm
  exact Except.ok.inj (hread.symm.trans ((parseAt_eq_ok_iff .start).2 hn))

-- The comma keeps the word from being a flag.
example : ListText "A(true,)".toList [("A", .nested [("true", .flag true)])] :=
  (parseAt_eq_ok_iff .start).1 (by rfl)

end Attribute

/-- **A text is read as the attributes that it derives.** A text that derives none is reported as
malformed. -/
theorem parseAttributes_eq_ok_iff (path : String) (e : Excerpt) :
    (∀ m, parseAttributes path e = .ok m ↔ Attribute.ListText e.text.toList m) ∧
      ((¬∃ m, Attribute.ListText e.text.toList m) →
        ∃ position reason,
          parseAttributes path e = .error (.malformedAttribute path position reason)) := by
  have hiff : ∀ m, parseAttributes path e = .ok m ↔ Attribute.ListText e.text.toList m := by
    intro m
    rw [← Attribute.parseAt_eq_ok_iff e.position]
    unfold parseAttributes Attributes.parse
    cases Attribute.parseAt e.position e.text.toList <;> simp [Except.mapError]
  refine ⟨hiff, fun hnone => ?_⟩
  cases hparse : Attributes.parse e.text e.position with
  | ok m => exact absurd ⟨m, (Attribute.parseAt_eq_ok_iff e.position).1 hparse⟩ hnone
  | error f =>
    refine ⟨f.position, f.cause.message, ?_⟩
    rw [parseAttributes, hparse]
    rfl

end HeaderReflection
