import JsonWriter.Proofs.Emission.Normal
import JsonWriter.Render

/-! Writing a value as a walk through its parts: a container is started, its items or its members
are written one after another, and it is closed. -/
namespace JsonWriter

namespace Text

theorem charsAtMost_iff (s t : List Char) : charsAtMost s t = true ↔ ¬t < s := by
  induction s generalizing t with
  | nil => exact ⟨fun _ => List.not_lt_nil t, fun _ => rfl⟩
  | cons a s ih =>
      cases t with
      | nil => exact ⟨nofun, fun h => absurd (List.nil_lt_cons a s) h⟩
      | cons b t =>
          rw [List.cons_lt_cons_iff]
          simp only [charsAtMost, Bool.or_eq_true, Bool.and_eq_true, decide_eq_true_eq,
            beq_iff_eq, ih, Char.toNat_inj]
          have hlt : ∀ c d : Char, c < d ↔ c.toNat < d.toNat := fun _ _ => Iff.rfl
          rw [hlt b a, not_or, not_and]
          constructor
          · rintro (h | ⟨rfl, h⟩)
            · exact ⟨by omega, fun heq => absurd (congrArg Char.toNat heq) (by omega)⟩
            · exact ⟨lt_irrefl _, fun _ => h⟩
          · rintro ⟨hle, htail⟩
            rcases Nat.lt_or_eq_of_le (Nat.not_lt.1 hle) with h | h
            · exact .inl h
            · exact .inr ⟨Char.toNat_inj.1 h, htail (Char.toNat_inj.1 h).symm⟩

/-- The order of texts is that of their code points. -/
theorem atMost_eq (s t : String) : atMost s t = decide (s ≤ t) := by
  rw [Bool.eq_iff_iff, decide_eq_true_eq]
  exact charsAtMost_iff s.toList t.toList

end Text

namespace Write

variable {σ : Type} [Sink σ]

def enclosed (kind : FrameKind) (body : Write σ Unit) : Write σ Unit := do
  start kind
  body
  finish

def emitMember (sortKeys : Bool) (m : String × Value) : Write σ Unit := do
  key (.text m.1)
  emit sortKeys m.2

theorem emitItems_eq (sortKeys : Bool) (items : List Value) :
    (emitItems sortKeys items : Write σ Unit) = items.forM (emit sortKeys) := by
  induction items with
  | nil => rfl
  | cons v items ih =>
      rw [emitItems, ih]
      rfl

theorem emitMembers_eq (sortKeys : Bool) (entries : List (Value × Value)) :
    (emitMembers sortKeys entries : List (String × Write σ Unit)) =
      (Value.named entries).map fun m => (m.1, emit sortKeys m.2) := by
  induction entries with
  | nil => rfl
  | cons e entries ih =>
      obtain ⟨k, v⟩ := e
      cases k with
      | text k => exact congrArg ((k, emit sortKeys v) :: ·) ih
      | _ => exact ih

theorem arrange_emitMembers (sortKeys : Bool) (entries : List (Value × Value)) :
    (arrange sortKeys (emitMembers sortKeys entries) : List (String × Write σ Unit)) =
      (Value.members sortKeys entries).map fun m => (m.1, emit sortKeys m.2) := by
  rw [emitMembers_eq]
  unfold arrange Value.members
  cases sortKeys with
  | true =>
      refine (List.map_mergeSort ?_).symm
      intro m _ n _
      exact (Text.atMost_eq m.1 n.1).symm
  | false => rfl

omit [Sink σ] in
theorem forM_map {α β : Type} (f : α → β) (w : β → Write σ Unit) (as : List α) :
    (as.map f).forM w = as.forM fun a => w (f a) := by
  induction as with
  | nil => rfl
  | cons a as ih =>
      change (w (f a) >>= fun _ => (as.map f).forM w) = _
      rw [ih]
      rfl

omit [Sink σ] in
theorem forM_congr {α : Type} {w w' : α → Write σ Unit} (as : List α)
    (h : ∀ a ∈ as, w a = w' a) : as.forM w = as.forM w' := by
  induction as with
  | nil => rfl
  | cons a as ih =>
      change (w a >>= fun _ => as.forM w) = (w' a >>= fun _ => as.forM w')
      rw [h a List.mem_cons_self, ih fun b hb => h b (List.mem_cons_of_mem a hb)]

omit [Sink σ] in
theorem forM_flatMap {α β : Type} (f : α → List β) (w : β → Write σ Unit) (as : List α) :
    (as.flatMap f).forM w = as.forM fun a => (f a).forM w := by
  induction as with
  | nil => rfl
  | cons a as ih =>
      change (f a ++ as.flatMap f).forM w =
        (do (f a).forM w; as.forM fun a => (f a).forM w)
      rw [← ih]
      exact List.forM_append

variable (sortKeys : Bool)

theorem emit_int (n : Int) : (emit sortKeys (.int n) : Write σ Unit) =
    (do valueText (← check (Scalar.integer (.int n)))) := by
  rw [emit, integer]

theorem emit_int_of_long {n : Int} (h : Numeral.maxDigits < (Nat.toDigits 10 n.natAbs).length) :
    (emit sortKeys (.int n) : Write σ Unit) = throw (.value .numeralTooLong) := by
  rw [emit_int, Scalar.integer, Scalar.integerText_of_long h]
  rfl

theorem emit_int_of_short {n : Int}
    (h : ¬Numeral.maxDigits < (Nat.toDigits 10 n.natAbs).length) :
    (emit sortKeys (.int n) : Write σ Unit) = valueText (String.ofList (Numeral.ofInt n)) := by
  rw [emit_int, Scalar.integer, Scalar.integerText_of_short h]
  rfl

theorem emit_float (x : Binary64) (s : Session σ) :
    emit sortKeys (.float x) s = valueText (x.toJson s.settings.floatPrecision) s := by
  change (check (Scalar.float (.float x) (.int s.settings.floatPrecision)) >>=
    valueText : Write σ Unit) s = _
  rw [Scalar.float_of_le x s.settings.floatPrecision_le]
  rfl

theorem emit_list (items : List Value) :
    (emit sortKeys (.list items) : Write σ Unit) =
      enclosed .array (items.forM (emit sortKeys)) := by
  rw [emit, emitItems_eq]
  rfl

theorem emit_tuple (items : List Value) :
    (emit sortKeys (.tuple items) : Write σ Unit) =
      enclosed .array (items.forM (emit sortKeys)) := by
  rw [emit, emitItems_eq]
  rfl

theorem emit_mapping {entries : List (Value × Value)} (h : nonTextKey? entries = none) :
    (emit sortKeys (.mapping entries) : Write σ Unit) =
      enclosed .object ((Value.members sortKeys entries).forM (emitMember sortKeys)) := by
  rw [emit, h, arrange_emitMembers]
  simp only [forM_map]
  rfl

theorem emit_mapping_of_key {entries : List (Value × Value)} {kind : Kind}
    (h : nonTextKey? entries = some kind) :
    (emit sortKeys (.mapping entries) : Write σ Unit) = throw (.type (.objectKey kind)) := by
  rw [emit, h]

theorem mapM_textPair (es : List (String × String)) :
    es.mapM (fun e => textPair (.text e.1, .text e.2)) = .ok es := by
  induction es with
  | nil => rfl
  | cons e es ih =>
      rw [List.mapM_cons, ih]
      rfl

theorem pairsOf_pairs (p : PairList) : pairsOf (.pairs p) = .ok p.entries := by
  have hmap : (p.entries.map fun e => Value.tuple [.text e.1, .text e.2]).mapM
      (fun item => do textPair (← item.pair)) =
      p.entries.mapM fun e => textPair (.text e.1, .text e.2) := by
    rw [List.mapM_map]
    rfl
  have hpairs : pairsOf (.pairs p) =
      (p.entries.map fun e => Value.tuple [.text e.1, .text e.2]).mapM
        (fun item => do textPair (← item.pair)) := rfl
  rw [hpairs, hmap, mapM_textPair]

theorem emit_pairs (p : PairList) :
    (emit sortKeys (.pairs p) : Write σ Unit) =
      enclosed .object
        ((p.entries.map fun e => (e.1, Value.text e.2)).forM (emitMember sortKeys)) := by
  rw [emit]
  unfold stringPairs
  rw [pairsOf_pairs, forM_map]
  rfl

end Write
end JsonWriter
