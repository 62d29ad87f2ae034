import JsonWriter.Proofs.Json.ScalarText
import JsonWriter.Proofs.Session.Growth
import JsonWriter.Proofs.Session.Tokens
import JsonWriter.Sink

/-! What the text of an unfinished document looks like: which text stands in each open container,
and that every token written where it is allowed keeps it so. -/
namespace JsonWriter

open Json

/-- What was written in an open container, as tokens and as text. Its marks tell whether it has
members, and whether a key stands at its end. -/
inductive Content : Frame → List Token → List Char → Prop
  | array {body vs t} : SpellsItems body vs → ItemRow t vs →
      Content ⟨.array, !vs.isEmpty, false⟩ body t
  | object {body ms t} : SpellsMembers body ms → MemberRow t ms →
      Content ⟨.object, !ms.isEmpty, false⟩ body t
  | pending {body ms t} (k : String) : SpellsMembers body ms → MemberRow t ms →
      Content ⟨.object, !ms.isEmpty, true⟩ (body ++ [.key k])
        (t ++ (comma (!ms.isEmpty) ++ ((Text.quote k).toList ++ [':'])))
  | string (chunks : List String) :
      Content ⟨.string, false, false⟩ (chunks.map .chunk)
        ((String.join chunks).toList.flatMap Text.escapeChar)

namespace Content

variable {f : Frame} {body toks : List Token} {t u : List Char} {outer st' : Stack}

theorem fresh (kind : FrameKind) : Content { kind } [] [] := by
  cases kind with
  | array => exact .array .nil .empty
  | object => exact .object .nil .empty
  | string => exact .string []

theorem value {sep : Separator} {v : Json} (h : Content f body t)
    (hvalue : Stack.value (f :: outer) = .ok (sep, st')) (htoks : Spells toks v)
    (hu : Spaced u v) : ∃ f', st' = f' :: outer ∧ f'.kind = f.kind ∧
      Content f' (body ++ toks) (t ++ (sep.text.toList ++ u)) := by
  cases h with
  | @array _ vs _ hbody hrow =>
      cases hvalue
      refine ⟨⟨.array, true, false⟩, rfl, rfl, ?_⟩
      have hnext := Content.array (hbody.concat htoks) (hrow.add hu)
      have hmember : (!(vs ++ [v]).isEmpty) = true := by simp
      rw [hmember] at hnext
      rw [Frame.separator_text]
      exact hnext
  | object _ _ => cases hvalue
  | @pending _ ms _ k hbody hrow =>
      cases hvalue
      refine ⟨⟨.object, true, false⟩, rfl, rfl, ?_⟩
      have hnext := Content.object (hbody.concat htoks) (hrow.add (member_quote k hu))
      have hmember : (!(ms ++ [(k, v)]).isEmpty) = true := by simp
      rw [hmember] at hnext
      simpa [Separator.text] using hnext
  | string chunks => cases hvalue

theorem key {sep : Separator} (k : String) (h : Content f body t)
    (hkey : Stack.key (f :: outer) = .ok (sep, st')) :
    ∃ f', st' = f' :: outer ∧ f'.kind = f.kind ∧ Content f' (body ++ [.key k])
      (t ++ (sep.text.toList ++ ((Text.quote k).toList ++ [':']))) := by
  cases h with
  | array _ _ => cases hkey
  | @object _ ms _ hbody hrow =>
      cases hkey
      refine ⟨⟨.object, !ms.isEmpty, true⟩, rfl, rfl, ?_⟩
      rw [Frame.separator_text]
      exact .pending k hbody hrow
  | pending _ _ _ => cases hkey
  | string chunks => cases hkey

theorem chunk (s : String) (h : Content f body t)
    (hchunk : Stack.chunk (f :: outer) = .ok ((), st')) :
    ∃ f', st' = f' :: outer ∧ f'.kind = f.kind ∧
      Content f' (body ++ [.chunk s]) (t ++ (Text.escape s).toList) := by
  cases h with
  | array _ _ => cases hchunk
  | object _ _ => cases hchunk
  | pending _ _ _ => cases hchunk
  | string chunks =>
      cases hchunk
      refine ⟨⟨.string, false, false⟩, rfl, rfl, ?_⟩
      have hnext := Content.string (chunks ++ [s])
      rw [join_append_singleton, String.toList_append, List.flatMap_append, List.map_append]
        at hnext
      rw [Text.toList_escape]
      exact hnext

/-- A container that may be closed spells and denotes a value. -/
theorem closed {f' : Frame} (h : Content f body t)
    (hpop : Stack.pop (f :: outer) = .ok (f', st')) :
    f' = f ∧ st' = Stack.markMember outer ∧
      ∃ v, Spells (.start f.kind :: (body ++ [.finish])) v ∧
        Denotes (f.kind.opener.toList ++ (t ++ f.kind.closer.toList)) v := by
  cases h with
  | array hbody hrow =>
      cases hpop
      refine ⟨rfl, rfl, _, .array hbody, ?_⟩
      simpa [FrameKind.opener, FrameKind.closer] using hrow.denotes
  | object hbody hrow =>
      cases hpop
      refine ⟨rfl, rfl, _, .object hbody, ?_⟩
      simpa [FrameKind.opener, FrameKind.closer] using hrow.denotes
  | pending _ _ _ => cases hpop
  | string chunks =>
      cases hpop
      refine ⟨rfl, rfl, _, .string chunks, ?_⟩
      have hdenotes := Denotes.string (chars_flatMap_escapeChar (String.join chunks).toList)
      rw [String.ofList_toList] at hdenotes
      simpa [FrameKind.opener, FrameKind.closer] using hdenotes

end Content

/-- What was written of a value whose containers are not all closed. -/
inductive Draft : List Token → Stack → List Char → Prop
  | top : Draft [] [] []
  | inside {toks st t sep st' f body u} : Draft toks st t → Stack.value st = .ok (sep, st') →
      Content f body u →
      Draft (toks ++ .start f.kind :: body) (f :: st')
        (t ++ (sep.text.toList ++ (f.kind.opener.toList ++ u)))

/-- What was written of a value, which is whole as soon as no container is open. -/
inductive Part (spaced : Bool) : List Token → Stack → List Char → Prop
  | whole {toks v t} : Spells toks v → Reads spaced t v → Part spaced toks [] t
  | draft {toks f st t} : Draft toks (f :: st) t → Part spaced toks (f :: st) t

variable {spaced : Bool} {toks toks' : List Token} {tok : Token} {st st' : Stack}
  {t u out : List Char}

theorem Part.inside (spaced : Bool) {sep : Separator} {f : Frame} {body : List Token}
    (h : Draft toks st t) (hvalue : st.value = .ok (sep, st')) (hcontent : Content f body u) :
    Part spaced (toks ++ .start f.kind :: body) (f :: st')
      (t ++ (sep.text.toList ++ (f.kind.opener.toList ++ u))) := .draft (.inside h hvalue hcontent)

theorem Draft.value {sep : Separator} {v : Json} (h : Draft toks st t)
    (hvalue : st.value = .ok (sep, st')) (htoks : Spells toks' v) (hu : Reads spaced u v) :
    Part spaced (toks ++ toks') st' (t ++ (sep.text.toList ++ u)) := by
  cases h with
  | top =>
      cases hvalue
      exact .whole htoks hu
  | inside hdraft hplace hcontent =>
      obtain ⟨f', rfl, hkind, hnext⟩ := hcontent.value hvalue htoks hu.spaced
      have hinside := Part.inside spaced hdraft hplace hnext
      rw [hkind] at hinside
      simpa only [List.append_assoc, List.cons_append] using hinside

/-- One more token keeps what was written a part of one value. -/
theorem Draft.adds (h : Draft toks st t) (hadds : Adds spaced tok st st' out) :
    Part spaced (toks ++ [tok]) st' (t ++ out) := by
  cases hadds with
  | value hvalue hu => exact h.value hvalue (.value _) hu
  | start kind hvalue =>
      have hinside := Part.inside spaced h hvalue (.fresh kind)
      rwa [List.append_nil] at hinside
  | chunk s hchunk =>
      cases h with
      | top => cases hchunk
      | inside hdraft hplace hcontent =>
          obtain ⟨f', rfl, hkind, hnext⟩ := hcontent.chunk s hchunk
          have hinside := Part.inside spaced hdraft hplace hnext
          rw [hkind] at hinside
          simpa only [List.append_assoc, List.cons_append] using hinside
  | key k hkey =>
      cases h with
      | top => cases hkey
      | inside hdraft hplace hcontent =>
          obtain ⟨f', rfl, hkind, hnext⟩ := hcontent.key k hkey
          have hinside := Part.inside spaced hdraft hplace hnext
          rw [hkind] at hinside
          simpa only [List.append_assoc, List.cons_append] using hinside
  | finish hpop =>
      cases h with
      | top => cases hpop
      | inside hdraft hplace hcontent =>
          -- The closed container is written where its start was.
          obtain ⟨rfl, rfl, v, hspells, hdenotes⟩ := hcontent.closed hpop
          have hvalue := hdraft.value hplace hspells (hdenotes.reads spaced)
          rw [Stack.markMember_of_value hplace]
          simpa only [List.append_assoc, List.cons_append] using hvalue

theorem Part.writes (h : Part spaced toks st t) (hwrites : Writes spaced 1 toks' st st' out) :
    Part spaced (toks ++ toks') st' (t ++ out) := by
  induction hwrites generalizing toks t with
  | nil st =>
      rw [List.append_nil, List.append_nil]
      exact h
  | cons hlevel hadds _ ih =>
      cases h with
      | whole _ _ => cases hlevel
      | draft hdraft =>
          have hnext := ih (hdraft.adds hadds)
          simpa only [List.append_assoc, List.cons_append, List.nil_append] using hnext

/-- What was written of a row of values: the tokens and the texts of each. Only the last of them may
be unfinished. -/
inductive Written (spaced : Bool) : List (List Token) → Stack → List (List Char) → Prop
  | start : Written spaced [] [] []
  | add {words pieces toks st t} : Written spaced words [] pieces → Part spaced toks st t →
      Written spaced (words ++ [toks]) st (pieces ++ [t])

theorem Written.reads {words : List (List Token)} {pieces : List (List Char)}
    (h : Written spaced words [] pieces) : ∀ t ∈ pieces, ∃ v, Reads spaced t v := by
  generalize hst : ([] : Stack) = st at h
  induction h with
  | start => exact nofun
  | add _ hpart ih =>
      subst hst
      intro t ht
      rcases List.mem_append.1 ht with ht | ht
      · exact ih rfl t ht
      · cases List.mem_singleton.1 ht
        cases hpart with
        | whole _ hreads => exact ⟨_, hreads⟩

end JsonWriter
