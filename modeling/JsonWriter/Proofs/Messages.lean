import JsonWriter.Proofs.Json.IntegerText

/-! What messages say. Whatever a fault or a line of the log carries is told in its message, and causes
that carry nothing are told in words of their own. -/
namespace JsonWriter

/-- A text stands somewhere in a message. -/
def Says (message part : String) : Prop := part.toList <:+: message.toList

namespace Says

variable {message part other : String}

theorem refl (message : String) : Says message message := List.infix_rfl

theorem left (h : Says message part) (other : String) : Says (message ++ other) part := by
  unfold Says
  rw [String.toList_append]
  exact h.trans (List.prefix_append _ _).isInfix

theorem last (before part : String) : Says (before ++ part) part := by
  unfold Says
  rw [String.toList_append]
  exact (List.suffix_append _ _).isInfix

theorem within (before part after : String) : Says (before ++ part ++ after) part :=
  (last before part).left after

theorem trans (h : Says message part) (h' : Says part other) : Says message other :=
  List.IsInfix.trans h' h

end Says

theorem Kind.says_name (k : Kind) : Says k.className k.name := by
  have hqualified : Says k.qualifiedName k.name := by
    cases k with
    | pairs => exact .last "jsongen.kvpair." _
    | settings => exact .last "jsongen.config_io." _
    | path => exact .last "pathlib." _
    | _ => exact .refl _
  exact (Says.within _ _ _).trans hqualified

/-- The kinds that a value was found to have, or may not have. -/
def TypeFault.kinds : TypeFault → List Kind
  | boolAsInteger => [.bool]
  | notText k | notInteger k | precisionNotNumber k | notNumber k | rawNotText k | notCollection k
  | notPair k | arrayItem k | pairKey k | pairValue k | objectKey k | noJsonForm k
  | settingsSource k | notHashable k => [k]
  | pairTexts key value => [key, value]

theorem TypeFault.says_kinds (cause : TypeFault) {k : Kind} (h : k ∈ cause.kinds) :
    Says cause.message k.name := by
  cases cause with
  | boolAsInteger =>
      obtain rfl := List.mem_singleton.1 h
      exact (Says.refl "bool").left " is not an integer here, use a JSON boolean"
  | notText _ | arrayItem _ | pairKey _ | pairValue _ | objectKey _ | noJsonForm _
  | settingsSource _ =>
      obtain rfl := List.mem_singleton.1 h
      exact (Says.last _ _).trans k.says_name
  | notInteger _ | precisionNotNumber _ | notNumber _ | rawNotText _ | notCollection _ | notPair _
  | notHashable _ =>
      obtain rfl := List.mem_singleton.1 h
      exact .within _ _ _
  | pairTexts key value =>
      rcases List.mem_pair.1 h with rfl | rfl
      · exact ((((Says.last _ _).left _).left _).left _).trans k.says_name
      · exact (Says.within _ _ _).trans k.says_name

/-- What was found out of bounds, as it is shown, and the bound. -/
def ValueFault.parts : ValueFault → List String
  | precisionMalformed shown | notNumeral shown | frameKind shown => [shown]
  | numeralTooLong => [Numeral.ofCount Numeral.maxDigits]
  | numeralTooLongToRead digits => [Numeral.ofCount Numeral.maxDigits, Numeral.ofCount digits]
  | tooFewInPair count => [Numeral.ofCount count]
  | negativePrecision | precisionMissing | precisionTooBig | precisionTooManyDigits | tooManyInPair
  | nulInPath => []

theorem ValueFault.says_parts (cause : ValueFault) {part : String} (h : part ∈ cause.parts) :
    Says cause.message part := by
  have hlimit : Says message.tooLong (Numeral.ofCount Numeral.maxDigits) := .within _ _ _
  cases cause with
  | precisionMalformed _ | tooFewInPair _ =>
      obtain rfl := List.mem_singleton.1 h
      exact .within _ _ _
  | notNumeral _ =>
      obtain rfl := List.mem_singleton.1 h
      exact .last _ _
  | frameKind _ =>
      obtain rfl := List.mem_singleton.1 h
      exact (Says.refl _).left _
  | numeralTooLong =>
      obtain rfl := List.mem_singleton.1 h
      exact (hlimit.left _).left _
  | numeralTooLongToRead digits =>
      rcases List.mem_pair.1 h with rfl | rfl
      · exact (((hlimit.left _).left _).left _).left _
      · exact (Says.within _ _ _).left _
  | negativePrecision | precisionMissing | precisionTooBig | precisionTooManyDigits | tooManyInPair
  | nulInPath => cases h

/-- No two ways in which a text stops being a document are told in the same words. -/
theorem SyntaxFault.message_injective : Function.Injective message := by
  intro a b h
  cases a <;> cases b <;> first | rfl | simp [message] at h

theorem FileFault.message_injective : Function.Injective message := by
  intro a b h
  cases a <;> cases b <;> first | rfl | simp [message] at h

def SettingsFault.path? : SettingsFault → Option String
  | notUtf8 path | malformed path _ | notObject path | version path _ | unknown path _ => some path
  | precisionType _ | precisionRange _ | nesting _ | givenTwice _ => none

/-- What was found in the settings, as it is shown. -/
def SettingsFault.parts : SettingsFault → List String
  | precisionType shown | precisionRange shown | nesting shown | version _ shown
  | unknown _ shown => [shown]
  | malformed _ cause => [cause.message]
  | givenTwice name => [name]
  | notUtf8 _ | notObject _ => []

theorem SettingsFault.prefix_message (cause : SettingsFault) {path : String}
    (h : cause.path? = some path) : path.toList <+: cause.message.toList := by
  have hleft : ∀ {begun : String} (rest : String), path.toList <+: begun.toList →
      path.toList <+: (begun ++ rest).toList := by
    intro begun rest hbegun
    rw [String.toList_append]
    exact hbegun.trans (List.prefix_append _ _)
  cases cause with
  | notUtf8 _ | notObject _ =>
      obtain rfl := Option.some.inj h
      exact hleft _ List.prefix_rfl
  | malformed _ _ | version _ _ =>
      obtain rfl := Option.some.inj h
      exact hleft _ (hleft _ (hleft _ List.prefix_rfl))
  | unknown _ _ =>
      obtain rfl := Option.some.inj h
      exact hleft _ (hleft _ List.prefix_rfl)
  | precisionType _ | precisionRange _ | nesting _ | givenTwice _ => cases h

theorem SettingsFault.says_parts (cause : SettingsFault) {part : String} (h : part ∈ cause.parts) :
    Says cause.message part := by
  cases cause with
  | precisionType _ | precisionRange _ | nesting _ | unknown _ _ | givenTwice _ =>
      obtain rfl := List.mem_singleton.1 h
      exact .last _ _
  | malformed _ _ | version _ _ =>
      obtain rfl := List.mem_singleton.1 h
      exact .within _ _ _
  | notUtf8 _ | notObject _ => cases h

theorem Violation.says_limit {n : Int} {message : String}
    (h : message? (.tooDeep n) = some message) :
    Says message (String.ofList (Numeral.ofInt n)) := by
  rw [message?] at h
  obtain ⟨numeral, hnumeral, rfl⟩ := Option.map_eq_some_iff.1 h
  unfold Numeral.ofInt? at hnumeral
  split at hnumeral
  · cases hnumeral
    exact .within _ _ _
  · cases hnumeral

theorem Numeral.ofInt_injective : Function.Injective ofInt := by
  intro m n h
  have hsign : m < 0 ↔ n < 0 := by rw [← Json.head?_ofInt, ← Json.head?_ofInt, h]
  have habs : m.natAbs = n.natAbs := by
    rw [← value_toDigits m.natAbs, ← value_toDigits n.natAbs]
    unfold ofInt at h
    by_cases hm : m < 0
    · rw [if_pos hm, if_pos (hsign.1 hm)] at h
      exact congrArg value (List.tail_eq_of_cons_eq h)
    · rw [if_neg hm, if_neg (mt hsign.2 hm)] at h
      exact congrArg value h
  omega

theorem Numeral.eq_of_ofInt? {m n : Int} {numeral : String} (hm : ofInt? m = some numeral)
    (hn : ofInt? n = some numeral) : m = n := by
  unfold ofInt? at hm hn
  split at hm
  · split at hn
    · have htext := Option.some.inj (hm.trans hn.symm)
      exact ofInt_injective (String.ofList_injective htext)
    · cases hn
  · cases hm

theorem Violation.head?_message? {cause : Violation} {message : String}
    (h : cause.message? = some message) :
    message.toList.head? = some 'n' ↔ ∃ n, cause = .tooDeep n := by
  cases cause with
  | tooDeep n =>
      rw [message?] at h
      obtain ⟨numeral, -, rfl⟩ := Option.map_eq_some_iff.1 h
      refine iff_of_true ?_ ⟨n, rfl⟩
      rw [String.toList_append, String.toList_append]
      rfl
  | _ =>
      cases h
      refine iff_of_false (by decide) ?_
      rintro ⟨_, hlimit⟩
      cases hlimit

/-- A violation is known from what is said of it. -/
theorem Violation.eq_of_message? {a b : Violation} {message : String}
    (ha : a.message? = some message) (hb : b.message? = some message) : a = b := by
  have hlimit : (∃ n, a = .tooDeep n) ↔ ∃ n, b = .tooDeep n :=
    (head?_message? ha).symm.trans (head?_message? hb)
  by_cases hdeep : ∃ n, a = .tooDeep n
  · obtain ⟨n, rfl⟩ := hlimit.1 hdeep
    obtain ⟨m, rfl⟩ := hdeep
    rw [message?] at ha hb
    obtain ⟨p, hp, rfl⟩ := Option.map_eq_some_iff.1 ha
    obtain ⟨q, hq, htext⟩ := Option.map_eq_some_iff.1 hb
    have hsame : q = p := by
      simpa only [← String.toList_inj, String.toList_append, List.append_cancel_left_eq,
        List.append_cancel_right_eq] using htext
    rw [hsame] at hq
    rw [Numeral.eq_of_ofInt? hp hq]
  · have hother := mt hlimit.2 hdeep
    have h := ha.trans hb.symm
    clear ha hb hlimit
    cases a <;> cases b <;> first | rfl | simp_all [message?]

theorem Violation.getD_message? {cause : Violation} {message : String}
    (h : message ∈ cause.message?.toList) : cause.message?.getD "" = message := by
  rw [Option.mem_toList.1 h, Option.getD_some]

/-- What a fault carries, as a message tells it. -/
def Fault.parts : Fault → List String
  | type cause => cause.kinds.map (·.name)
  | value cause => cause.parts
  | integerTooLarge => []
  | nesting cause => cause.message?.toList
  | leftOpen level => [Numeral.ofCount level]
  | settings cause => cause.path?.toList ++ cause.parts
  | file cause path => [cause.message, Text.display path.text]
  | raised text => [text]

/-- Whatever a fault carries is told in its message. -/
theorem Fault.says_parts (fault : Fault) {part : String} (h : part ∈ fault.parts) :
    Says fault.message part := by
  cases fault with
  | type cause =>
      obtain ⟨k, hk, rfl⟩ := List.mem_map.1 h
      exact cause.says_kinds hk
  | value cause => exact cause.says_parts h
  | integerTooLarge => cases h
  | nesting cause =>
      change Says (cause.message?.getD "") part
      rw [Violation.getD_message? h]
      exact .refl part
  | leftOpen level =>
      obtain rfl := List.mem_singleton.1 h
      exact .last _ _
  | settings cause =>
      rcases List.mem_append.1 h with hpath | hpart
      · exact (cause.prefix_message (Option.mem_toList.1 hpath)).isInfix
      · exact cause.says_parts hpart
  | file cause path =>
      rcases List.mem_pair.1 h with rfl | rfl
      · exact (Says.refl _).left _
      · exact .last _ _
  | raised text =>
      obtain rfl := List.mem_singleton.1 h
      exact .refl _

def LogLine.parts : LogLine → List String
  | violation level cause => Numeral.ofCount level :: cause.message?.toList
  | loaded path digest => [path, digest]

theorem LogLine.says_parts (line : LogLine) {part : String} (h : part ∈ line.parts) :
    Says line.text part := by
  cases line with
  | violation level cause =>
      rcases List.mem_cons.1 h with rfl | hcause
      · exact (Says.within _ _ _).left _
      · have hlast : Says (text (.violation level cause)) (cause.message?.getD "") := .last _ _
        rwa [Violation.getD_message? hcause] at hlast
  | loaded path digest =>
      rcases List.mem_pair.1 h with rfl | rfl
      · exact ((Says.within _ _ _).left _).left _
      · exact .within _ _ _

end JsonWriter
