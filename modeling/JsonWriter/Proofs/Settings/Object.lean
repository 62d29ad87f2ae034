import JsonWriter.Proofs.Settings.Literal

/-! Documents that are one object whose members have literals as their values: their texts, and that
these are the ones that are read as such an object. -/
namespace JsonWriter.Document

open Json (Chars Blank Stops skipSpace_append skipSpace_cons exists_blank_append_skipSpace)

/-- The text of a member, with space around its parts. -/
inductive Field : List Char → String × Value → Prop
  | mk {w name s w' u t w'' v} : Blank w → Chars name s → Blank w' → Blank u → Literal t v →
      Blank w'' →
      Field (w ++ '"' :: (name ++ '"' :: (w' ++ ':' :: (u ++ (t ++ w''))))) (String.ofList s, v)

inductive Fields : List Char → List (String × Value) → Prop
  | one {t m} : Field t m → Fields t [m]
  | more {t m ts ms} : Field t m → Fields ts ms → Fields (t ++ ',' :: ts) (m :: ms)

inductive FlatObject : List Char → List (String × Value) → Prop
  | mk {w t w' ms} : Blank w → Fields t ms → Blank w' →
      FlatObject (w ++ '\x7b' :: (t ++ '\x7d' :: w')) ms

def entriesOf (ms : List (String × Value)) : List (Value × Value) :=
  ms.map fun m => (.text m.1, m.2)

theorem Field.blank {w t : List Char} {m : String × Value} (hw : Blank w) (h : Field t m) :
    Field (w ++ t) m := by
  cases h with
  | mk hw' hname hcolon hu hv htail =>
      rw [← List.append_assoc]
      exact .mk (hw.append hw') hname hcolon hu hv htail

theorem Fields.blank {w t : List Char} {ms : List (String × Value)} (hw : Blank w)
    (h : Fields t ms) : Fields (w ++ t) ms := by
  cases h with
  | one ht => exact .one (ht.blank hw)
  | more ht hts =>
      rw [← List.append_assoc]
      exact .more (ht.blank hw) hts

theorem Fields.length_le {t : List Char} {ms : List (String × Value)} (h : Fields t ms) :
    ms.length ≤ t.length := by
  induction h with
  | one ht =>
      cases ht with
      | mk => simp; omega
  | more _ _ ih =>
      rw [List.length_append, List.length_cons, List.length_cons]
      omega

/-- Plain members are read from a text of them, up to the brace that closes the object. -/
theorem fields_of_readMembers {steps : Nat} {s r : List Char} {ms : List (String × Value)}
    (h : readMembers steps s = .ok (ms, r)) (hplain : ∀ m ∈ ms, Plain m.2) :
    ∃ t, Fields t ms ∧ s = t ++ '\x7d' :: r := by
  induction steps generalizing s ms with
  | zero => cases h
  | succ steps ih =>
      unfold readMembers at h
      split at h
      · obtain ⟨⟨name, rest⟩, hname, hvalue⟩ := exists_of_bind_eq_ok h
        obtain ⟨t, ht, hs⟩ := readString_eq_ok_iff.1 hname
        obtain ⟨w, hw, hrest⟩ := exists_blank_append_skipSpace rest
        dsimp only at hvalue
        split at hvalue
        · rename_i rest' hcolon
          obtain ⟨⟨item, rest₁⟩, hitem, hnext⟩ := exists_of_bind_eq_ok hvalue
          obtain ⟨u, hu, hrest'⟩ := exists_blank_append_skipSpace rest'
          obtain ⟨w', hw', hrest₁⟩ := exists_blank_append_skipSpace rest₁
          dsimp only at hnext
          split at hnext
          · rename_i hbrace
            cases hnext
            obtain ⟨l, hl, hsplit⟩ := literal_of_readValue hitem (hplain _ List.mem_cons_self)
            refine ⟨_, .one (.mk .nil ht hw hu hl hw'), ?_⟩
            rw [hs, hrest, hcolon, hrest', hsplit, hrest₁, hbrace]
            simp
          · rename_i rest₂ hcomma
            obtain ⟨⟨others, r'⟩, hothers, heq⟩ := exists_of_bind_eq_ok hnext
            cases heq
            obtain ⟨l, hl, hsplit⟩ := literal_of_readValue hitem (hplain _ List.mem_cons_self)
            obtain ⟨ts, hts, hsplit'⟩ := ih hothers fun m hm => hplain m (List.mem_cons_of_mem _ hm)
            obtain ⟨w'', hw'', hrest₂⟩ := exists_blank_append_skipSpace rest₂
            refine ⟨_, .more (.mk .nil ht hw hu hl hw') (hts.blank hw''), ?_⟩
            rw [hs, hrest, hcolon, hrest', hsplit, hrest₁, hcomma, hrest₂, hsplit']
            simp
          · cases hnext
        · cases hvalue
      · cases h

theorem Literal.head {t : List Char} {v : Value} (h : Literal t v) :
    ∃ c s, t = c :: s ∧ isSpace c = false := by
  cases h with
  | null => exact ⟨_, _, rfl, rfl⟩
  | string _ => exact ⟨_, _, rfl, rfl⟩
  | negative _ _ => exact ⟨_, _, rfl, rfl⟩
  | positive ht _ =>
      obtain ⟨c, s, rfl, hc⟩ := ht.head
      refine ⟨c, s, rfl, ?_⟩
      rw [Bool.eq_false_iff]
      intro hspace
      simp only [isSpace, Bool.or_eq_true, beq_iff_eq] at hspace
      rcases hspace with ((rfl | rfl) | rfl) | rfl <;> cases hc

/-- The parts of a member are found one after another, up to what follows it. -/
theorem Field.parts {t next : List Char} {m : String × Value} (h : Field t m) (steps : Nat)
    (hnext : Stops next) : ∃ s name rest rest' rest'',
      skipSpace (t ++ next) = '"' :: s ∧ readString s = .ok (name, rest) ∧
      String.ofList name = m.1 ∧ skipSpace rest = ':' :: rest' ∧
      readValue (steps + 1) (skipSpace rest') = .ok (m.2, rest'') ∧
      skipSpace rest'' = skipSpace next := by
  cases h with
  | @mk w name s w' u t w'' v hw hname hcolon hu hv htail =>
      refine ⟨name ++ '"' :: (w' ++ ':' :: (u ++ (t ++ (w'' ++ next)))), s,
        w' ++ ':' :: (u ++ (t ++ (w'' ++ next))), u ++ (t ++ (w'' ++ next)), w'' ++ next, ?_,
        readString_eq_ok_iff.2 ⟨name, hname, rfl⟩, rfl, ?_, ?_, skipSpace_append htail next⟩
      · rw [List.append_assoc, skipSpace_append hw, List.cons_append, skipSpace_cons rfl]
        simp
      · rw [skipSpace_append hcolon, skipSpace_cons rfl]
      · obtain ⟨c, s, rfl, hc⟩ := hv.head
        rw [skipSpace_append hu, List.cons_append, skipSpace_cons hc]
        exact hv.read steps (htail.stops hnext)

theorem Fields.read {t : List Char} {ms : List (String × Value)} {steps : Nat} (h : Fields t ms)
    (hsteps : ms.length < steps) (r : List Char) :
    readMembers steps (skipSpace (t ++ '\x7d' :: r)) = .ok (ms, r) := by
  induction h generalizing steps with
  | @one t m ht =>
      obtain ⟨steps, rfl⟩ := Nat.exists_eq_add_of_le' hsteps
      obtain ⟨s, name, rest, rest', rest'', hquote, hname, hm, hcolon, hvalue, hend⟩ :=
        ht.parts steps (Json.stops_brace r)
      rw [skipSpace_cons rfl] at hend
      rw [hquote, List.length_singleton, readMembers]
      simp only [hname, hcolon, hvalue, hend, hm, bind, Except.bind]
      rfl
  | @more t m ts ms ht hts ih =>
      obtain ⟨steps, rfl⟩ := Nat.exists_eq_add_of_le' hsteps
      have hothers : readMembers (steps + ms.length + 1) (skipSpace (ts ++ '\x7d' :: r)) =
          .ok (ms, r) := ih (by omega)
      obtain ⟨s, name, rest, rest', rest'', hquote, hname, hm, hcolon, hvalue, hend⟩ :=
        ht.parts (steps + ms.length) (Json.stops_comma (ts ++ '\x7d' :: r))
      rw [skipSpace_cons rfl] at hend
      rw [List.append_assoc, List.cons_append, hquote]
      change readMembers (steps + ms.length + 1 + 1) _ = _
      rw [readMembers]
      simp only [hname, hcolon, hvalue, hend, hm, hothers, bind, Except.bind]
      rfl

theorem repeated?_eq_none_iff {seen names : List String} :
    repeated? seen names = none ↔ names.Nodup ∧ ∀ name ∈ names, name ∉ seen := by
  induction names generalizing seen with
  | nil => simp [repeated?]
  | cons name names ih =>
      unfold repeated?
      by_cases hmem : name ∈ seen
      · simp [hmem]
      · rw [if_neg (by simpa using hmem), ih, List.nodup_cons]
        constructor
        · rintro ⟨hnodup, hfresh⟩
          refine ⟨⟨fun h => hfresh name h List.mem_cons_self, hnodup⟩, ?_⟩
          intro n hn
          rcases List.mem_cons.1 hn with rfl | hn
          · exact hmem
          · exact fun h => hfresh n hn (List.mem_cons_of_mem _ h)
        · rintro ⟨⟨hfresh, hnodup⟩, hseen⟩
          refine ⟨hnodup, fun n hn h => ?_⟩
          rcases List.mem_cons.1 h with rfl | h
          · exact hfresh hn
          · exact hseen n (List.mem_cons_of_mem _ hn) h

/-! Whole documents. -/

theorem ne_mapping_of_readScalar {s r : List Char} {v : Value} (h : readScalar s = .ok (v, r))
    (entries : List (Value × Value)) : v ≠ .mapping entries := by
  have hreads := readScalar_reads s
  rw [h] at hreads
  cases hreads with
  | word _ hword => cases hword <;> nofun
  | number hnumber => cases hnumber <;> nofun

/-- An object with members is read from a brace and those members, whose names all differ. -/
theorem members_of_readValue {steps : Nat} {s r : List Char} {entries : List (Value × Value)}
    (h : readValue steps s = .ok (.mapping entries, r)) (hne : entries ≠ []) :
    ∃ k s' ms, s = '\x7b' :: s' ∧ readMembers k (skipSpace s') = .ok (ms, r) ∧
      (ms.map (·.1)).Nodup ∧ entries = entriesOf ms := by
  cases steps with
  | zero => cases h
  | succ steps =>
      unfold readValue at h
      split at h
      · obtain ⟨text, -, heq⟩ := exists_of_bind_eq_ok h
        cases heq
      · rename_i s'
        split at h
        · cases h
          exact absurd rfl hne
        · obtain ⟨⟨ms, rest⟩, hmembers, hnext⟩ := exists_of_bind_eq_ok h
          obtain ⟨object, hclose, heq⟩ := exists_of_bind_eq_ok hnext
          cases heq
          obtain ⟨hnone, hentries⟩ := closeObject_eq_ok hclose
          refine ⟨steps, s', ms, rfl, hmembers, (repeated?_eq_none_iff.1 hnone).1, ?_⟩
          cases hentries
          rfl
      · split at h
        · cases h
        · obtain ⟨items, -, heq⟩ := exists_of_bind_eq_ok h
          cases heq
      · exact absurd rfl (ne_mapping_of_readScalar h entries)

/-- What a document with members holds. If they are plain, its text is that of an object of such
members. -/
theorem members_of_read {s : List Char} {entries : List (Value × Value)}
    (h : read s = .ok (.mapping entries)) (hne : entries ≠ []) :
    ∃ ms, entries = entriesOf ms ∧ (ms.map (·.1)).Nodup ∧
      ((∀ m ∈ ms, Plain m.2) → FlatObject s ms) := by
  unfold read at h
  split at h
  · cases h
  · obtain ⟨⟨v, rest⟩, hvalue, hnext⟩ := exists_of_bind_eq_ok h
    dsimp only at hnext
    split at hnext
    · rename_i hend
      cases hnext
      obtain ⟨k, s', ms, hbrace, hmembers, hnodup, hentries⟩ := members_of_readValue hvalue hne
      refine ⟨ms, hentries, hnodup, fun hplain => ?_⟩
      obtain ⟨t, ht, hsplit⟩ := fields_of_readMembers hmembers hplain
      obtain ⟨w, hw, hs⟩ := exists_blank_append_skipSpace s
      obtain ⟨w', hw', hs'⟩ := exists_blank_append_skipSpace s'
      obtain ⟨w'', hw'', hrest⟩ := exists_blank_append_skipSpace rest
      have htext : s = w ++ '\x7b' :: (w' ++ t ++ '\x7d' :: w'') := by
        rw [hs, hbrace, hs', hsplit, hrest, hend]
        simp
      rw [htext]
      exact .mk hw (ht.blank hw') hw''
    · cases hnext

theorem Fields.head {t : List Char} {ms : List (String × Value)} (h : Fields t ms)
    (r : List Char) : ∃ s, skipSpace (t ++ r) = '"' :: s := by
  have hfield : ∀ {t m}, Field t m → ∀ r, ∃ s, skipSpace (t ++ r) = '"' :: s := by
    rintro t m ⟨hw, hname, hcolon, hu, hv, htail⟩ r
    rw [List.append_assoc, skipSpace_append hw]
    exact ⟨_, skipSpace_cons rfl _⟩
  cases h with
  | one ht => exact hfield ht r
  | more ht hts =>
      rw [List.append_assoc]
      exact hfield ht _

/-- An object of plain members is read, if no name is there twice. -/
theorem Fields.object {t : List Char} {ms : List (String × Value)} {steps : Nat} (h : Fields t ms)
    (hnodup : (ms.map (·.1)).Nodup) (hsteps : ms.length < steps) (r : List Char) :
    readValue (steps + 1) ('\x7b' :: (t ++ '\x7d' :: r)) = .ok (.mapping (entriesOf ms), r) := by
  have hclose : closeObject ms = .ok (.mapping (entriesOf ms)) := by
    unfold closeObject
    rw [repeated?_eq_none_iff.2 ⟨hnodup, fun _ _ => List.not_mem_nil⟩]
    rfl
  have hmembers := h.read hsteps r
  obtain ⟨u, hu⟩ := h.head ('\x7d' :: r)
  rw [hu] at hmembers
  simp [readValue, hu, hmembers, hclose, bind, Except.bind, pure, Except.pure]

theorem FlatObject.read {s : List Char} {ms : List (String × Value)} (h : FlatObject s ms)
    (hnodup : (ms.map (·.1)).Nodup) : Document.read s = .ok (.mapping (entriesOf ms)) := by
  obtain @⟨w, t, w', ms, hw, ht, hw'⟩ := h
  have hlen : ms.length < 2 * (w ++ '\x7b' :: (t ++ '\x7d' :: w')).length := by
    have hfields := ht.length_le
    simp
    omega
  have hskip : skipSpace (w ++ '\x7b' :: (t ++ '\x7d' :: w')) = '\x7b' :: (t ++ '\x7d' :: w') := by
    rw [skipSpace_append hw, skipSpace_cons rfl]
  have hend : skipSpace w' = [] := List.dropWhile_eq_nil_iff.2 hw'
  unfold Document.read
  split
  · rename_i rest hmark
    -- A byte order mark is no space.
    cases w with
    | nil => cases hmark
    | cons c w =>
        cases hmark
        exact absurd (hw _ List.mem_cons_self) (by decide)
  · rw [hskip, ht.object hnodup hlen]
    simp only [bind, Except.bind, hend]
    rfl

end JsonWriter.Document
