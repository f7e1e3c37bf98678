import HeaderReflection.Attribute.Parse
import HeaderReflection.Proofs.Outcome
import HeaderReflection.Proofs.Token.Partition

/-!
# Places of attribute faults

Reading attributes only ever moves on in the text, and a fault is reported at a place that reading
has come to. An excerpt is read on its own: its places are counted from where it starts, in its
first line on from the column there.

* `Position.past_eq_counted`: the place behind a text, counted in the text.
* `Reader.Follows`: what reading leaves, and where it reports faults.
* `readList_follows`: lists of attributes are read so.
* `exists_read_of_parse`: the place of a fault in an excerpt.
-/

namespace HeaderReflection

namespace Text.Position

/-- The place behind the first characters of an excerpt. Before the first line end of the excerpt
the columns go on from that of its start, and behind it they are counted from one. -/
def counted (origin : Position) (read : List Char) : Position :=
  if '\n' ∈ read then
    ⟨origin.line + read.count '\n', (Token.lastLine read).length + 1⟩
  else ⟨origin.line, origin.column + read.length⟩

/-- Walking over a text leads to the place that is counted in it. -/
theorem past_eq_counted (origin : Position) (read : List Char) :
    origin.past read = origin.counted read := by
  induction read using List.reverseRecOn with
  | nil => rfl
  | append_singleton read c ih =>
    rw [past_append, ih, past_cons, past_nil, advance]
    by_cases hc : c = '\n'
    · by_cases hread : '\n' ∈ read
      · simp [counted, hc, hread, Token.lastLine_concat, Nat.add_assoc]
      · simp [counted, hc, hread, Token.lastLine_concat, List.count_eq_zero_of_not_mem]
    · by_cases hread : '\n' ∈ read
      · simp [counted, hc, hread, Token.lastLine_concat]
      · simp [counted, hc, Ne.symm hc, hread, Nat.add_assoc]

end Text.Position

namespace Attribute

open Text (Position isBlank)

namespace Reader

variable {α β : Type} {r r' r'' : Reader}

/-- The second reader is the first one past some characters. -/
def Precedes (r r' : Reader) : Prop :=
  ∃ read, r.rest = read ++ r'.rest ∧ r'.position = r.position.past read

theorem Precedes.refl (r : Reader) : r.Precedes r :=
  ⟨[], rfl, rfl⟩

theorem Precedes.trans (h : r.Precedes r') (h' : r'.Precedes r'') : r.Precedes r'' := by
  obtain ⟨read, hrest, hplace⟩ := h
  obtain ⟨more, hrest', hplace'⟩ := h'
  refine ⟨read ++ more, by rw [hrest, hrest', List.append_assoc], ?_⟩
  rw [hplace', hplace, Position.past_append]

theorem precedes_advance (position : Position) (c : Char) (rest : List Char) :
    Precedes ⟨position, c :: rest⟩ ⟨position.advance c, rest⟩ :=
  ⟨[c], rfl, rfl⟩

theorem precedes_dropWhile (r : Reader) (p : Char → Bool) : r.Precedes (r.dropWhile p) :=
  ⟨r.rest.takeWhile p, List.takeWhile_append_dropWhile.symm, rfl⟩

theorem precedes_skipBlanks (r : Reader) : r.Precedes r.skipBlanks :=
  r.precedes_dropWhile isBlank

theorem precedes_next (r : Reader) : r.Precedes r.next := by
  obtain ⟨position, rest⟩ := r
  cases rest with
  | nil => exact .refl _
  | cons c rest => exact precedes_advance position c rest

/-- Reading leaves a reader further on, or reports a fault at the place of one. -/
def Follows (r : Reader) : Except AttributeFault (α × Reader) → Prop
  | .ok (_, r') => r.Precedes r'
  | .error f => ∃ r', r.Precedes r' ∧ f.position = r'.position

namespace Follows

theorem ok (h : r.Precedes r') (a : α) : r.Follows (.ok (a, r')) := h

theorem fail (h : r.Precedes r') (cause : AttributeCause) :
    r.Follows (r'.fail cause : Except AttributeFault (α × Reader)) :=
  ⟨r', h, rfl⟩

/-- What reads on from further on reads on. -/
theorem of_precedes {x : Except AttributeFault (α × Reader)} (h : r.Precedes r')
    (hx : r'.Follows x) : r.Follows x := by
  cases x with
  | ok a => exact h.trans hx
  | error f =>
    obtain ⟨r'', hr, hplace⟩ := hx
    exact ⟨r'', h.trans hr, hplace⟩

theorem bind {x : Except AttributeFault (α × Reader)}
    {k : α × Reader → Except AttributeFault (β × Reader)} (hx : r.Follows x)
    (hk : ∀ a r', r.Precedes r' → r.Follows (k (a, r'))) : r.Follows (x >>= k) := by
  cases x with
  | ok a => exact hk a.1 a.2 hx
  | error f => exact hx

theorem map {x : Except AttributeFault (α × Reader)} (hx : r.Follows x) (g : α → β) :
    r.Follows (x.map fun (a, r') => (g a, r')) := by
  cases x with
  | ok a => exact hx
  | error f => exact hx

end Follows

end Reader

open Reader (Follows Precedes)

variable {readNested : Reader → Except AttributeFault (Attributes × Reader)}

/-! ## What reads on -/

theorem readKey_follows (r : Reader) : r.Follows (readKey r) := by
  unfold readKey
  split
  · exact .fail (.refl r) _
  · exact .ok (r.precedes_dropWhile _) _

theorem readText_follows (position : Position) (cs : List Char) :
    Follows ⟨position, cs⟩ (readText position cs) := by
  fun_induction readText position cs with
  | case1 position => exact .fail (.refl _) _
  | case2 position => exact .fail (Reader.precedes_advance ..) _
  | case3 position c rest ih =>
    have hescape := (Reader.precedes_advance position '\\' (c :: rest)).trans
      (Reader.precedes_advance _ c rest)
    exact .of_precedes hescape (ih.map (unescape c :: ·))
  | case4 position rest => exact .ok (Reader.precedes_advance ..) _
  | case5 position c rest _ _ _ ih =>
    exact .of_precedes (Reader.precedes_advance ..) (ih.map (c :: ·))

theorem readNumber_follows (r : Reader) : r.Follows (readNumber r) := by
  unfold readNumber
  dsimp only
  split
  · exact .ok (r.precedes_dropWhile _) _
  · exact .fail (.refl r) _

theorem readBounds_follows (fuel : Nat) (r : Reader) : r.Follows (readBounds fuel r) := by
  induction fuel generalizing r with
  | zero => exact .ok (.refl r) _
  | succ fuel ih =>
    have hbar := r.precedes_skipBlanks
    rw [readBounds]
    dsimp only
    split
    · have hnumber := (hbar.trans (Reader.precedes_next _)).trans (Reader.precedes_skipBlanks _)
      refine (Follows.of_precedes hnumber (readNumber_follows _)).bind fun x behind hbehind => ?_
      exact (Follows.of_precedes hbehind (ih behind)).bind fun xs last hlast => .ok hlast _
    · exact .ok hbar _

theorem readNumeric_follows (r : Reader) : r.Follows (readNumeric r) := by
  unfold readNumeric
  refine (readNumber_follows r).bind fun x behind hbehind => ?_
  refine (Follows.of_precedes hbehind (readBounds_follows _ behind)).bind fun xs last hlast => ?_
  dsimp only
  split
  · exact .ok hlast _
  · exact .fail (.refl r) _

theorem precedes_of_readFlag? {r r' : Reader} {b : Bool} (h : readFlag? r = some (b, r')) :
    r.Precedes r' := by
  have hbehind := (r.precedes_dropWhile Text.isWordChar).trans (Reader.precedes_skipBlanks _)
  unfold readFlag? at h
  dsimp only at h
  split at h
  · split at h
    · obtain ⟨-, rfl⟩ := Prod.mk.inj (Option.some.inj h)
      exact hbehind
    · split at h
      · obtain ⟨-, rfl⟩ := Prod.mk.inj (Option.some.inj h)
        exact hbehind
      · cases h
  · cases h

theorem readValue_follows (hnested : ∀ r : Reader, r.Follows (readNested r)) (r : Reader) :
    r.Follows (readValue readNested r) := by
  unfold readValue
  split
  · exact .of_precedes r.precedes_next ((readText_follows r.next.position r.next.rest).map
      fun cs => AttributeValue.text (String.ofList cs))
  · split
    · exact readNumeric_follows r
    · split
      · rename_i hflag
        exact .ok (precedes_of_readFlag? hflag) _
      · exact (hnested r).map _

theorem readArgument_follows (hnested : ∀ r : Reader, r.Follows (readNested r)) (r : Reader) :
    r.Follows (readArgument readNested r) := by
  unfold readArgument
  split
  · have hvalue := r.precedes_next.trans (Reader.precedes_skipBlanks _)
    refine (Follows.of_precedes hvalue (readValue_follows hnested _)).bind
      fun value behind hbehind => ?_
    have hclose := hbehind.trans behind.precedes_skipBlanks
    dsimp only
    split
    · exact .ok (hclose.trans (Reader.precedes_next _)) _
    · exact .fail (hclose.trans (Reader.precedes_next _)) _
  · exact .ok (.refl r) _

/-- Lists of attributes are read on from where they start. -/
theorem readList_follows (fuel : Nat) (nested : Bool) (m : Attributes) (r : Reader) :
    r.Follows (readList fuel nested m r) := by
  induction fuel generalizing nested m r with
  | zero => exact .fail (.refl r) _
  | succ fuel ih =>
    have hstart := r.precedes_skipBlanks
    rw [readList]
    dsimp only
    split
    · split
      · exact .fail hstart _
      · exact .ok hstart _
    · split
      · exact .ok hstart _
      · exact .fail hstart _
    · refine (Follows.of_precedes hstart (readKey_follows _)).bind fun key behind hbehind => ?_
      have hargument := hbehind.trans behind.precedes_skipBlanks
      refine (Follows.of_precedes hargument (readArgument_follows (ih true []) _)).bind
        fun value last hlast => ?_
      have hstop := hlast.trans last.precedes_skipBlanks
      dsimp only
      split
      · exact .fail hstart _
      · split
        · exact .of_precedes (hstop.trans (Reader.precedes_next _)) (ih nested _ _)
        · split
          · exact .ok hstop _
          · exact .fail hstop _
        · split
          · exact .fail hstop _
          · exact .ok hstop _
        · exact .fail hstop _

end Attribute

/-- A fault in an excerpt is reported at a place in it, or behind it. -/
theorem Attributes.exists_read_of_parse {text : String} {origin : Text.Position}
    {f : AttributeFault} (h : Attributes.parse text origin = .error f) :
    ∃ read unread : String, text = read ++ unread ∧ f.position = origin.past read.toList := by
  have hfollows := Attribute.readList_follows (text.toList.length + 1) false []
    ⟨origin, text.toList⟩
  rw [map_eq_error_iff.1 h] at hfollows
  obtain ⟨r, ⟨read, hrest, hplace⟩, hf⟩ := hfollows
  refine ⟨String.ofList read, String.ofList r.rest, ?_, ?_⟩
  · rw [← String.ofList_append, ← hrest, String.ofList_toList]
  · rw [hf, hplace, String.toList_ofList]

end HeaderReflection
