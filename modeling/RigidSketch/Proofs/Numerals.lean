import RigidSketch.Proofs.Reading

/-! The language of each numeral. Reading takes its texts, if what follows cannot belong to it. -/

namespace RigidSketch

namespace Numeral

open Reader

def signs : Bool → Language Char
  | true => {['-']}
  | false => {[], ['+']}

/-- The text in letters of either case. -/
def caseless (text : String) : Language Char := {w | w.map Char.toLower = text.toList}

/-- One digit or more before the point, which may be left out if none follows, or else a point
and one digit or more. -/
def decimals (whole fraction : List Char) : Language Char :=
  {w | (∀ c ∈ whole ++ fraction, c.isDigit = true) ∧
    (whole ≠ [] ∧ fraction = [] ∧ w = whole ∨ whole ≠ [] ∧ w = whole ++ '.' :: fraction ∨
      whole = [] ∧ fraction ≠ [] ∧ w = '.' :: fraction)}

def exponents (exponent : Int) : Language Char :=
  {w | w = [] ∧ exponent = 0 ∨ ∃ mark negative, ∃ sign ∈ signs negative, ∃ ds,
    (mark = 'e' ∨ mark = 'E') ∧ ds ≠ [] ∧ (∀ c ∈ ds, c.isDigit = true) ∧
    w = mark :: (sign ++ ds) ∧
    exponent = if negative then -(digitsValue ds : Int) else digitsValue ds}

def language : Numeral → Language Char
  | undefined => caseless "nan"
  | infinite negative => signs negative * (caseless "inf" + caseless "infinity")
  | decimal negative whole fraction exponent =>
    signs negative * (decimals whole fraction * exponents exponent)

theorem takes_anyCase (text : String) : Takes (anyCase text) fun _ => caseless text := by
  intro cs u rest h
  obtain ⟨v, hv, rfl⟩ := anyCase_eq_ok_iff.mp h
  exact ⟨v, hv, rfl⟩

theorem takes_readSign : Takes readSign signs := by
  refine takes_peek fun c => ?_
  split
  · exact (takes_word "+").map fun _ w hw => Or.inr hw
  · exact (takes_word "-").map fun _ w hw => hw
  · exact takes_pure (Or.inl rfl)

theorem takes_readExponent : Takes readExponent exponents := by
  refine takes_peek fun c => ?_
  have hrest : ∀ mark : Char, mark = 'e' ∨ mark = 'E' → Takes (do
      let negative ← readSign
      let size : Int := digitsValue (← readDigits)
      return if negative then -size else size : Reader Int)
        fun e => {v | mark :: v ∈ exponents e} := by
    intro mark hmark
    refine takes_readSign.bind fun negative sign hsign => ?_
    refine (takes_while1 Char.isDigit).map fun ds _ hds => ?_
    obtain ⟨rfl, hne, hdigits⟩ := hds
    exact Or.inr ⟨mark, negative, sign, hsign, _, hmark, hne, hdigits, rfl, rfl⟩
  split
  · refine (takes_word "e").bind fun _ w hw => ?_
    cases hw
    exact hrest 'e' (Or.inl rfl)
  · refine (takes_word "E").bind fun _ w hw => ?_
    cases hw
    exact hrest 'E' (Or.inr rfl)
  · exact takes_pure (Or.inl ⟨rfl, rfl⟩)

theorem takes_readFraction : Takes readFraction fun fraction =>
    {w | (∀ c ∈ fraction, c.isDigit = true) ∧ (fraction = [] ∧ w = [] ∨ w = '.' :: fraction)} := by
  refine takes_peek fun c => ?_
  split
  · refine (takes_word ".").bind fun _ w hw => ?_
    cases hw
    intro cs ds rest h
    obtain ⟨v, ⟨rfl, hds⟩, heq⟩ := takes_while0 Char.isDigit h
    exact ⟨v, ⟨hds, Or.inr rfl⟩, heq⟩
  · exact takes_pure ⟨nofun, Or.inl ⟨rfl, rfl⟩⟩

theorem takes_readUnsigned (negative : Bool) : Takes (readUnsigned negative) fun n =>
    {w | ∀ sign ∈ signs negative, sign ++ w ∈ n.language} := by
  have hinfinite : Takes (do
      anyCase "inf"
      let _ ← optional (anyCase "inity")
      return Numeral.infinite negative) fun n =>
        {w | ∀ sign ∈ signs negative, sign ++ w ∈ n.language} := by
    refine (takes_anyCase "inf").bind fun _ w hw => ?_
    refine (takes_anyCase "inity").optional.map fun more v hv sign hsign => ?_
    refine Language.append_mem_mul hsign ?_
    cases more with
    | none =>
      cases hv
      exact Or.inl (by rwa [List.append_nil])
    | some _ =>
      refine Or.inr ?_
      calc (w ++ v).map Char.toLower = "inf".toList ++ "inity".toList := by
            rw [List.map_append]
            exact congrArg₂ (· ++ ·) hw hv
        _ = "infinity".toList := rfl
  refine takes_peek fun c => ?_
  split
  · exact hinfinite
  · exact hinfinite
  · refine (takes_word ".").bind fun _ w hw => ?_
    refine (takes_while1 Char.isDigit).bind fun fraction _ hds => ?_
    refine takes_readExponent.map fun e v hv sign hsign => ?_
    cases hw
    obtain ⟨rfl, hne, hdigits⟩ := hds
    refine Language.append_mem_mul hsign ?_
    rw [← List.append_assoc]
    exact Language.append_mem_mul ⟨hdigits, Or.inr (Or.inr ⟨rfl, hne, rfl⟩)⟩ hv
  · refine (takes_while1 Char.isDigit).bind fun whole _ hds => ?_
    refine takes_readFraction.bind fun fraction u hu => ?_
    refine takes_readExponent.map fun e v hv sign hsign => ?_
    obtain ⟨rfl, hne, hdigits⟩ := hds
    obtain ⟨hfraction, hu⟩ := hu
    refine Language.append_mem_mul hsign ?_
    rw [← List.append_assoc]
    refine Language.append_mem_mul ⟨?_, ?_⟩ hv
    · exact fun c hc => (List.mem_append.mp hc).elim (hdigits c) (hfraction c)
    · rcases hu with ⟨rfl, rfl⟩ | rfl
      · exact Or.inl ⟨hne, rfl, List.append_nil _⟩
      · exact Or.inr (Or.inl ⟨hne, rfl⟩)

theorem takes_read : Takes Numeral.read language := by
  refine takes_peek fun c => ?_
  have hundefined : Takes (do anyCase "nan"; return Numeral.undefined) language :=
    (takes_anyCase "nan").map fun _ w hw => hw
  split
  · exact hundefined
  · exact hundefined
  · refine takes_readSign.bind fun negative sign hsign => ?_
    intro cs n rest h
    obtain ⟨w, hw, heq⟩ := takes_readUnsigned negative h
    exact ⟨w, hw sign hsign, heq⟩

/-- Characters that a numeral might go on with. -/
def goesOn (c : Char) : Bool := c.isDigit || c == '.' || c.toLower == 'e' || c.toLower == 'i'

theorem readSign_append {negative : Bool} {sign : List Char} (h : sign ∈ signs negative)
    {rest : List Char} (hrest : Stops (fun c => c == '+' || c == '-') rest) :
    readSign (sign ++ rest) = .ok (negative, rest) := by
  cases negative with
  | true =>
    cases h
    rfl
  | false =>
    rcases h with rfl | rfl
    · cases rest with
      | nil => rfl
      | cons c rest =>
        have hc := hrest c rfl
        simp only [Bool.or_eq_false_iff, beq_eq_false_iff_ne] at hc
        simp [readSign, peek, bind, pure, hc]
    · rfl

theorem toLower_ne_of_goesOn {c : Char} (h : goesOn c = false) :
    c.isDigit = false ∧ c ≠ '.' ∧ c.toLower ≠ 'e' ∧ c.toLower ≠ 'i' := by
  simpa [goesOn, and_assoc] using h

theorem stops_isDigit {rest : List Char} (h : Stops goesOn rest) : Stops Char.isDigit rest :=
  fun c hc => (toLower_ne_of_goesOn (h c hc)).1

theorem readExponent_of_stops {rest : List Char} (h : Stops goesOn rest) :
    readExponent rest = .ok (0, rest) := by
  cases rest with
  | nil => rfl
  | cons c rest =>
    obtain ⟨_, _, hc, _⟩ := toLower_ne_of_goesOn (h c rfl)
    have he : c ≠ 'e' := by rintro rfl; exact hc rfl
    have hE : c ≠ 'E' := by rintro rfl; exact hc rfl
    simp [readExponent, peek, bind, pure, he, hE]

theorem readFraction_of_stops {rest : List Char} (h : Stops (· == '.') rest) :
    readFraction rest = .ok ([], rest) := by
  cases rest with
  | nil => rfl
  | cons c rest =>
    have hc : c ≠ '.' := by simpa using h c rfl
    simp [readFraction, peek, bind, pure, hc]

theorem readExponent_append {exponent : Int} {w : List Char} (h : w ∈ exponents exponent)
    {rest : List Char} (hrest : Stops goesOn rest) :
    readExponent (w ++ rest) = .ok (exponent, rest) := by
  rcases h with ⟨rfl, rfl⟩ | ⟨mark, negative, sign, hsign, ds, hmark, hne, hds, rfl, rfl⟩
  · exact readExponent_of_stops hrest
  · have hstop : Stops (fun c => c == '+' || c == '-') (ds ++ rest) := by
      obtain ⟨d, ds, rfl⟩ := List.exists_cons_of_ne_nil hne
      refine .cons ?_ _
      have hd := hds d List.mem_cons_self
      simp only [Bool.or_eq_false_iff, beq_eq_false_iff_ne]
      constructor <;> rintro rfl <;> cases hd
    have hread : (do
        let negative ← readSign
        let size : Int := digitsValue (← readDigits)
        return if negative then -size else size : Reader Int) (sign ++ (ds ++ rest)) =
          .ok (if negative then -(digitsValue ds : Int) else digitsValue ds, rest) := by
      rw [bind_of_ok (readSign_append hsign hstop), readDigits,
        bind_of_ok (while1_append hne hds (stops_isDigit hrest))]
      rfl
    rw [List.cons_append, List.append_assoc]
    rcases hmark with rfl | rfl
    · exact hread
    · exact hread

theorem stops_exponents {exponent : Int} {w : List Char} (h : w ∈ exponents exponent)
    {rest : List Char} (hrest : Stops goesOn rest) {p : Char → Bool}
    (hp : ∀ c, p c = true → goesOn c = true) (he : p 'e' = false) (hE : p 'E' = false) :
    Stops p (w ++ rest) := by
  rcases h with ⟨rfl, _⟩ | ⟨mark, _, _, _, _, rfl | rfl, _, _, rfl, _⟩
  · intro c hc
    have := hrest c hc
    grind
  · exact .cons he _
  · exact .cons hE _

theorem readUnsigned_digits {negative : Bool} {whole rest : List Char} (hne : whole ≠ [])
    (hwhole : ∀ c ∈ whole, c.isDigit = true) (hrest : Stops Char.isDigit rest) :
    readUnsigned negative (whole ++ rest) = (do
      let fraction ← readFraction
      return .decimal negative whole fraction (← readExponent) : Reader Numeral) rest := by
  obtain ⟨d, ds, rfl⟩ := List.exists_cons_of_ne_nil hne
  have hd := hwhole d List.mem_cons_self
  have hi : d ≠ 'i' := by rintro rfl; cases hd
  have hI : d ≠ 'I' := by rintro rfl; cases hd
  have hpoint : d ≠ '.' := by rintro rfl; cases hd
  have hbranch : readUnsigned negative (d :: ds ++ rest) = (do
      let whole ← while1 Char.isDigit
      let fraction ← readFraction
      return .decimal negative whole fraction (← readExponent) : Reader Numeral)
        (d :: ds ++ rest) := by
    simp [readUnsigned, readDigits, peek, bind, hi, hI, hpoint]
  rw [hbranch, bind_of_ok (while1_append hne hwhole hrest)]

theorem readUnsigned_decimals {negative : Bool} {whole fraction w v : List Char} {exponent : Int}
    (hw : w ∈ decimals whole fraction) (hv : v ∈ exponents exponent) {rest : List Char}
    (hrest : Stops goesOn rest) :
    readUnsigned negative (w ++ (v ++ rest)) =
      .ok (.decimal negative whole fraction exponent, rest) := by
  obtain ⟨hdigits, hw⟩ := hw
  have hwhole : ∀ c ∈ whole, c.isDigit = true := fun c hc => hdigits c (List.mem_append_left _ hc)
  have hfraction : ∀ c ∈ fraction, c.isDigit = true :=
    fun c hc => hdigits c (List.mem_append_right _ hc)
  have hstop : Stops Char.isDigit (v ++ rest) :=
    stops_exponents hv hrest (fun c hc => by simp [goesOn, hc]) rfl rfl
  rcases hw with ⟨hne, rfl, rfl⟩ | ⟨hne, rfl⟩ | ⟨rfl, hne, rfl⟩
  · have hpoint : Stops (· == '.') (v ++ rest) :=
      stops_exponents hv hrest (fun c hc => by simp_all [goesOn]) rfl rfl
    rw [readUnsigned_digits hne hwhole hstop, bind_of_ok (readFraction_of_stops hpoint),
      bind_of_ok (readExponent_append hv hrest)]
    rfl
  · have hread : readFraction ('.' :: (fraction ++ (v ++ rest))) = .ok (fraction, v ++ rest) :=
      while0_eq_ok_iff.mpr ⟨rfl, hfraction, hstop⟩
    rw [List.append_assoc, List.cons_append, readUnsigned_digits hne hwhole (.cons rfl _),
      bind_of_ok hread, bind_of_ok (readExponent_append hv hrest)]
    rfl
  · refine (bind_of_ok (while1_append hne hfraction hstop) _).trans ?_
    rw [bind_of_ok (readExponent_append hv hrest)]
    rfl

theorem optional_inity {rest : List Char} (h : Stops goesOn rest) :
    optional (anyCase "inity") rest = .ok (none, rest) := by
  cases rest with
  | nil => rfl
  | cons c rest =>
    obtain ⟨_, _, _, hc⟩ := toLower_ne_of_goesOn (h c rfl)
    have hfails : anyCase "inity" (c :: rest) = .error (c :: rest) := by
      have hne : ¬ ('i' == c.toLower) = true := by simpa using Ne.symm hc
      have hstrip : strip? (fun w c => w == c.toLower) "inity".toList (c :: rest) = none :=
        if_neg hne
      rw [anyCase, hstrip]
    rw [Reader.optional, hfails]

theorem eq_or_eq_of_toLower (upper : Char) {c lower : Char} (hcase : upper.val + 32 = lower.val)
    (h : c.toLower = lower) : c = lower ∨ c = upper := by
  unfold Char.toLower at h
  split at h
  · have hval : c.val + 32 = upper.val + 32 := by
      rw [hcase, ← h]
      rfl
    exact Or.inr (Char.ext ((UInt32.add_left_inj 32).mp hval))
  · exact Or.inl h

theorem caseless_append {a b : String} {w : List Char} (h : w ∈ caseless (a ++ b)) :
    ∃ u ∈ caseless a, ∃ v ∈ caseless b, w = u ++ v := by
  have hmap : w.map Char.toLower = a.toList ++ b.toList := by
    rw [← String.toList_append]
    exact h
  obtain ⟨u, v, rfl, hu, hv⟩ := List.map_eq_append_iff.mp hmap
  exact ⟨u, hu, v, hv, rfl⟩

theorem anyCase_append {text : String} {w : List Char} (hw : w ∈ caseless text)
    (rest : List Char) : anyCase text (w ++ rest) = .ok ((), rest) :=
  anyCase_eq_ok_iff.mpr ⟨w, hw, rfl⟩

theorem readUnsigned_inf {negative : Bool} {w : List Char} (hw : w ∈ caseless "inf")
    (rest : List Char) :
    readUnsigned negative (w ++ rest) = (do
      let _ ← optional (anyCase "inity")
      return .infinite negative : Reader Numeral) rest := by
  obtain ⟨c, cs, rfl, hc, _⟩ := List.map_eq_cons_iff.mp hw
  have hbranch : readUnsigned negative (c :: cs ++ rest) = (do
      anyCase "inf"
      let _ ← optional (anyCase "inity")
      return .infinite negative : Reader Numeral) (c :: cs ++ rest) := by
    rcases eq_or_eq_of_toLower 'I' rfl hc with rfl | rfl <;> rfl
  rw [hbranch, bind_of_ok (anyCase_append hw rest)]

theorem readUnsigned_infinite {negative : Bool} {w rest : List Char}
    (hw : w ∈ caseless "inf" + caseless "infinity") (hrest : Stops goesOn rest) :
    readUnsigned negative (w ++ rest) = .ok (.infinite negative, rest) := by
  rcases hw with hw | hw
  · rw [readUnsigned_inf hw, bind_of_ok (optional_inity hrest)]
    rfl
  · obtain ⟨u, hu, v, hv, rfl⟩ := caseless_append (a := "inf") (b := "inity") hw
    have hmore : optional (anyCase "inity") (v ++ rest) = .ok (some (), rest) := by
      rw [Reader.optional, anyCase_append hv]
    rw [List.append_assoc, readUnsigned_inf hu, bind_of_ok hmore]
    rfl

/-- Characters that a sign or an undefined value begins with. -/
def leads (c : Char) : Bool := c == '+' || c == '-' || c.toLower == 'n'

theorem stops_leads_of_isDigit {c : Char} (h : c.isDigit = true) (cs : List Char) :
    Stops leads (c :: cs) := by
  refine .cons ?_ cs
  have hlower : c.toLower ≠ 'n' := by
    intro hc
    rcases eq_or_eq_of_toLower 'N' rfl hc with rfl | rfl <;> cases h
  simp only [leads, Bool.or_eq_false_iff, beq_eq_false_iff_ne]
  refine ⟨⟨?_, ?_⟩, hlower⟩ <;> rintro rfl <;> cases h

theorem stops_leads_decimals {whole fraction w : List Char} (h : w ∈ decimals whole fraction)
    (rest : List Char) : Stops leads (w ++ rest) := by
  obtain ⟨hdigits, ⟨hne, _, rfl⟩ | ⟨hne, rfl⟩ | ⟨_, _, rfl⟩⟩ := h
  · obtain ⟨d, ds, rfl⟩ := List.exists_cons_of_ne_nil hne
    exact stops_leads_of_isDigit (hdigits d (by simp)) _
  · obtain ⟨d, ds, rfl⟩ := List.exists_cons_of_ne_nil hne
    exact stops_leads_of_isDigit (hdigits d (by simp)) _
  · exact .cons rfl _

theorem stops_leads_inf {w : List Char} (h : w ∈ caseless "inf" + caseless "infinity")
    (rest : List Char) : Stops leads (w ++ rest) := by
  have hhead : ∃ c cs, w = c :: cs ∧ c.toLower = 'i' := by
    rcases h with h | h <;>
    · obtain ⟨c, cs, rfl, hc, _⟩ := List.map_eq_cons_iff.mp h
      exact ⟨c, cs, rfl, hc⟩
  obtain ⟨c, cs, rfl, hc⟩ := hhead
  rcases eq_or_eq_of_toLower 'I' rfl hc with rfl | rfl <;> exact .cons rfl _

theorem read_signs {negative : Bool} {sign cs : List Char} (hsign : sign ∈ signs negative)
    (h : Stops leads cs) : Numeral.read (sign ++ cs) = readUnsigned negative cs := by
  have hstop : Stops (fun c => c == '+' || c == '-') cs := by
    intro c hc
    exact (Bool.or_eq_false_iff.mp (h c hc)).1
  have hbranch : Numeral.read (sign ++ cs) =
      (readSign >>= fun negative => readUnsigned negative) (sign ++ cs) := by
    cases negative with
    | true =>
      cases hsign
      rfl
    | false =>
      rcases hsign with rfl | rfl
      · cases cs with
        | nil => rfl
        | cons c cs =>
          have hlower : c.toLower ≠ 'n' := by
            simpa using (Bool.or_eq_false_iff.mp (h c rfl)).2
          have hn : c ≠ 'n' := by rintro rfl; exact hlower rfl
          have hN : c ≠ 'N' := by rintro rfl; exact hlower rfl
          simp [Numeral.read, peek, bind, hn, hN]
      · rfl
  rw [hbranch, bind_of_ok (readSign_append hsign hstop)]

theorem read_append {n : Numeral} {w rest : List Char} (hw : w ∈ n.language)
    (hrest : Stops goesOn rest) : Numeral.read (w ++ rest) = .ok (n, rest) := by
  cases n with
  | undefined =>
    obtain ⟨c, cs, rfl, hc, _⟩ := List.map_eq_cons_iff.mp hw
    have hbranch : Numeral.read (c :: cs ++ rest) = (do
        anyCase "nan"
        return Numeral.undefined : Reader Numeral) (c :: cs ++ rest) := by
      rcases eq_or_eq_of_toLower 'N' rfl hc with rfl | rfl <;> rfl
    rw [hbranch, bind_of_ok (anyCase_append hw rest)]
    rfl
  | infinite negative =>
    obtain ⟨sign, hsign, u, hu, rfl⟩ := hw
    dsimp only
    rw [List.append_assoc, read_signs hsign (stops_leads_inf hu rest),
      readUnsigned_infinite hu hrest]
  | decimal negative whole fraction exponent =>
    obtain ⟨sign, hsign, _, ⟨u, hu, v, hv, rfl⟩, rfl⟩ := hw
    dsimp only
    rw [List.append_assoc, List.append_assoc, read_signs hsign (stops_leads_decimals hu _),
      readUnsigned_decimals hu hv hrest]

end Numeral

end RigidSketch
