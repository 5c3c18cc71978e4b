import Gen2.Backend.KeptCalls

/-!
# Calls whose closer has not arrived

`backend/common/tool_calls.rs`: the text ends, and what is left in the buffer is a call all but the
end of its closer.

* `CutOff` is such a text: with the rest of the closer, and nothing behind it, it is a block with
  calls.
* Where the closer may be left out, the resolver has come to the end of the body by then, and where
  half of it stands there makes no difference (`Ends`): the array and the name form, and Gemma's.
* Where the body ends at its closer, it has not (`resolveTag_cutOff`, `resolveFunc_cutOff`).  So a
  flush emits the calls if and only if they are of one of the first formats (`flush_emits_iff`).
-/

namespace Gen2
namespace Backend

open Lib Reader List

/-- The marker that ends a call of the format, where there is one. -/
def Trigger.closer : Trigger → Text
  | tag => tagClose
  | bracket => bracketCloser
  | gemma => gemmaClose
  | func => funcClose
  | rehearsal => []
  | thinkOpen _ => []

section
variable [JsonText]

/-- A block with these calls, of whose closer not more than a beginning is there. -/
def CutOff (trigger : Trigger) (s : Text) (calls : List Generation.ToolCall) : Prop :=
  ∃ front k dialect, k < trigger.closer.length ∧ s = front ++ trigger.closer.take k ∧
    resolve none false [] 0 trigger (front ++ trigger.closer) =
      some (.complete 0 (front ++ trigger.closer).length dialect calls)

/-! ## Bodies -/

variable {gemmaQuotes : Bool} {s : Text} {i : Nat}

omit [JsonText] in
theorem balancedBraceLoop_skip {depth : Int} {inString inGemmaString : Bool} {skip braceEnd : Nat}
    (h : balancedBraceLoop gemmaQuotes i depth inString inGemmaString skip s =
      some (some braceEnd)) : i + skip ≤ braceEnd := by
  induction s generalizing i skip with
  | nil => simp [balancedBraceLoop] at h
  | cons c rest ih =>
    rcases Nat.eq_zero_or_pos skip with rfl | hskip
    · exact (balancedBraceLoop_lt h).1
    · rw [balancedBraceLoop, if_pos hskip] at h
      have := ih h
      omega

omit [JsonText] in
/-- The end of a body is found in what goes up to it. -/
theorem balancedBraceLoop_take {k : Nat} {depth : Int} {inString inGemmaString : Bool}
    {skip braceEnd : Nat}
    (h : balancedBraceLoop gemmaQuotes i depth inString inGemmaString skip s = some (some braceEnd))
    (hk : braceEnd < i + k) :
    balancedBraceLoop gemmaQuotes i depth inString inGemmaString skip (s.take k) =
      some (some braceEnd) := by
  induction s generalizing i k depth inString inGemmaString skip with
  | nil => simp [balancedBraceLoop] at h
  | cons c rest ih =>
    have hle := (balancedBraceLoop_lt h).1
    obtain ⟨k, rfl⟩ : ∃ m, k = m + 1 := ⟨k - 1, by omega⟩
    rw [take_succ_cons, balancedBraceLoop]
    rw [balancedBraceLoop] at h
    by_cases hskip : 0 < skip
    · rw [if_pos hskip] at h ⊢
      exact ih h (by omega)
    rw [if_neg hskip] at h ⊢
    -- a quote that the loop goes past ends in front of the end of the body
    have hquote : (gemmaQuotes && !inString && gemmaQuote.isPrefixOf (c :: rest.take k)) =
        (gemmaQuotes && !inString && gemmaQuote.isPrefixOf (c :: rest)) := by
      by_cases hfull : (gemmaQuotes && !inString && gemmaQuote.isPrefixOf (c :: rest)) = true
      · have hpast := h
        rw [if_pos hfull] at hpast
        have hroom := balancedBraceLoop_skip hpast
        rw [show gemmaQuote.length = 5 from rfl] at hroom
        simp only [Bool.and_eq_true] at hfull
        have hpre : gemmaQuote.isPrefixOf (c :: rest.take k) = true := by
          rw [ isPrefixOf_iff_prefix, ← take_succ_cons]
          refine prefix_take_iff.2 ⟨ isPrefixOf_iff_prefix.1 hfull.2, ?_⟩
          rw [show gemmaQuote.length = 5 from rfl]
          omega
        rw [hfull.2, hpre]
      · rw [Bool.eq_false_iff.2 hfull]
        rw [← Bool.not_eq_true]
        intro hshort
        refine hfull ?_
        simp only [Bool.and_eq_true] at hshort ⊢
        refine ⟨hshort.1, isPrefixOf_iff_prefix.2 ?_⟩
        refine ( isPrefixOf_iff_prefix.1 hshort.2).trans ?_
        rw [← take_succ_cons]
        exact take_prefix _ _
    rw [hquote]
    split_ifs at h ⊢ <;> first | exact h | exact ih h (by omega)

variable {body : Text} {len : Nat}

omit [JsonText] in
theorem braces_take {t : Text} (h : braces gemmaQuotes s = .done body len) (ht : t <+: s)
    (hlen : len ≤ t.length) : braces gemmaQuotes t = .done body len := by
  rw [braces] at h
  split at h
  · cases h
  · cases h
  next braceEnd hend =>
    cases h
    rw [prefix_iff_eq_take.1 ht, braces, balancedBraceEnd,
      balancedBraceLoop_take hend (by omega)]
    dsimp only
    rw [take_take, Nat.min_eq_left hlen]

omit [JsonText] in
theorem brackets_take {t : Text} (h : brackets s = .done body len) (ht : t <+: s)
    (hlen : len ≤ t.length) : brackets t = .done body len := by
  rw [brackets] at h
  split at h
  · cases h
  next close hclose =>
    cases h
    rw [prefix_iff_eq_take.1 ht, brackets, balancedBracketEnd,
      balancedBracketLoop_take hclose (by omega)]
    dsimp only
    rw [take_take, Nat.min_eq_left hlen]

omit [JsonText] in
theorem braces_pos (h : braces gemmaQuotes s = .done body len) : 0 < len := by
  rw [braces] at h
  split at h <;> cases h
  exact Nat.succ_pos _

omit [JsonText] in
theorem brackets_pos (h : brackets s = .done body len) : 0 < len := by
  rw [brackets] at h
  split at h <;> cases h
  exact Nat.succ_pos _

/-! ## Closers that may be left out -/

/-- The text ends with the closer, and where it ends without all of the closer, these calls are
found in it.  `n` is how much there is in front of the closer. -/
def EndsAt (closer : Text) (n : Nat) (f : Bool → Reader Char Verdict) (u : Text) (v : Verdict) :
    Prop :=
  ∃ front, n ≤ front.length ∧ u = front ++ closer ∧ ∀ k < closer.length, ∃ len ws,
    f true (front ++ closer.take k) = .done v len ∧ (∀ c ∈ ws, isWhitespace c = true) ∧
      (front ++ closer.take k).drop len = ws ++ closer.take k

/-- Calls that are read up to the end of the text are found without all of the closer too. -/
def Ends (closer : Text) (n : Nat) (f : Bool → Reader Char Verdict) : Prop :=
  ∀ u dialect calls, f false u = .done (.calls dialect calls) u.length →
    EndsAt closer n f u (.calls dialect calls)

variable {closer : Text} {f : Bool → Reader Char Verdict} {β : Type}

variable {n : Nat} {v : Verdict}

omit [JsonText] in
theorem Ends.pure_of_ne (h : ∀ dialect calls, v ≠ .calls dialect calls) :
    Ends closer n fun _ => Pure.pure v := by
  intro u dialect calls hdone
  exact absurd (Look.done.inj hdone).1 (h dialect calls)

omit [JsonText] in
theorem Ends.ite {c : Prop} [Decidable c] {f g : Bool → Reader Char Verdict} (hf : Ends closer n f)
    (hg : Ends closer n g) : Ends closer n fun atEos => if c then f atEos else g atEos := by
  split
  · exact hf
  · exact hg

variable {g : Reader Char β} {h : Bool → β → Reader Char Verdict}

omit [JsonText] in
/-- What comes in front, if it is read in every text that has all but the closer. -/
theorem EndsAt.after {m : Nat} {u : Text} {value : β} {len₁ : Nat} (hle : len₁ ≤ u.length)
    (hm : m ≤ len₁ + n)
    (hread : ∀ t, t <+: u → u.length ≤ t.length + closer.length → len₁ + n ≤ t.length →
      g t = .done value len₁)
    (hends : EndsAt closer n (fun atEos => h atEos value) (u.drop len₁) v) :
    EndsAt closer m (fun atEos => g >>= h atEos) u v := by
  obtain ⟨front, hn, hfront, hcut⟩ := hends
  have hu : u = (u.take len₁ ++ front) ++ closer := by
    rw [append_assoc, ← hfront, take_append_drop]
  have hlenTake : (u.take len₁).length = len₁ := length_take_of_le hle
  have hfrontLen : (u.take len₁ ++ front).length = len₁ + front.length := by
    rw [length_append, hlenTake]
  refine ⟨u.take len₁ ++ front, by omega, hu, fun k hk => ?_⟩
  have hread' : g ((u.take len₁ ++ front) ++ closer.take k) = .done value len₁ := by
    refine hread _ ?_ ?_ ?_
    · conv_rhs => rw [hu]
      exact (prefix_append_right_inj _).2 ( take_prefix _ _)
    · conv_lhs => rw [hu]
      simp only [length_append]
      omega
    · rw [length_append]
      omega
  have htail : ((u.take len₁ ++ front) ++ closer.take k).drop len₁ = front ++ closer.take k := by
    rw [append_assoc, drop_append, drop_eq_nil_of_le (by omega), hlenTake,
      Nat.sub_self, drop_zero, nil_append]
  obtain ⟨len, ws, hlook, hws, hdrop⟩ := hcut k hk
  refine ⟨len₁ + len, ws, bind_eq_done.2 ⟨value, len₁, len, hread', ?_, rfl⟩, hws, ?_⟩
  · rw [htail]
    exact hlook
  · rw [← drop_drop, htail]
    exact hdrop

omit [JsonText] in
theorem Ends.after {m : Nat}
    (hg : ∀ {s value len}, g s = .done value len → len ≤ s.length ∧ m ≤ len + n)
    (hread : ∀ {s value len}, g s = .done value len → ∀ {t}, t <+: s → len + n ≤ t.length →
      g t = .done value len) (hh : ∀ value, Ends closer n fun atEos => h atEos value) :
    Ends closer m fun atEos => g >>= h atEos := by
  intro u dialect calls hdone
  obtain ⟨value, len₁, len₂, h₁, h₂, hlen⟩ := bind_eq_done.1 hdone
  obtain ⟨hle, hm⟩ := hg h₁
  refine .after hle hm (fun t ht _ hlen => hread h₁ ht hlen) (hh value _ _ _ ?_)
  rw [length_drop, hlen, Nat.add_sub_cancel_left]
  exact h₂

open Ends

omit [JsonText] in
/-- What comes in front, and is followed by more. -/
theorem Ends.prompt (hg : Reads True g) (hprompt : Prompt g)
    (hh : ∀ value, Ends closer 1 fun atEos => h atEos value) :
    Ends closer 1 fun atEos => g >>= h atEos :=
  after (fun h => ⟨hg.within h, Nat.le_add_left _ _⟩)
    (fun h _ ht hlen => hprompt _ _ _ h _ ht hlen) hh

omit [JsonText] in
theorem Ends.braces {h : Bool → Text → Reader Char Verdict}
    (hh : ∀ body, Ends closer 0 fun atEos => h atEos body) :
    Ends closer 1 fun atEos => braces gemmaQuotes >>= h atEos :=
  have hreads : Reads True (Backend.braces gemmaQuotes) := braces_reads gemmaQuotes
  after (fun h => ⟨hreads.within h, braces_pos h⟩)
    (fun h _ ht hlen => braces_take h ht hlen) hh

omit [JsonText] in
theorem Ends.brackets {h : Bool → Text → Reader Char Verdict}
    (hh : ∀ body, Ends closer 0 fun atEos => h atEos body) :
    Ends closer 1 fun atEos => brackets >>= h atEos :=
  have hreads : Reads True Backend.brackets := brackets_reads
  after (fun h => ⟨hreads.within h, brackets_pos h⟩)
    (fun h _ ht hlen => brackets_take h ht hlen) hh

omit [JsonText] in
/-- **The closer itself.**  Behind it nothing is read. -/
theorem Ends.optionalCloser (hhead : closer.takeWhile isWhitespace = [])
    {g : Unit → Reader Char Verdict} (hg : ∃ look : Look Verdict, (∀ s, g () s = look) ∧
      ∀ value len, look = .done value len → len = 0) :
    Ends closer 0 fun atEos => optionalCloser closer atEos >>= g := by
  intro u dialect calls hdone
  obtain ⟨look, hlook, hzero⟩ := hg
  obtain ⟨⟨⟩, len₁, len₂, h₁, h₂, hlen⟩ := bind_eq_done.1 hdone
  rw [hlook] at h₂
  obtain rfl := hzero _ _ h₂
  rw [Backend.optionalCloser] at h₁
  split at h₁
  next hpre =>
    obtain ⟨-, hlen₁⟩ := Look.done.inj h₁
    have hpre := isPrefixOf_iff_prefix.1 hpre
    have htail : u.drop (wsLen u) = closer := by
      refine (hpre.eq_of_length_le ?_).symm
      rw [length_drop]
      omega
    have hws : ∀ c ∈ u.take (wsLen u), isWhitespace c = true := by
      intro c hc
      rw [wsLen, ← prefix_iff_eq_take.1 ( takeWhile_prefix _)] at hc
      exact mem_takeWhile_imp hc
    refine ⟨u.take (wsLen u), Nat.zero_le _, by rw [← htail, take_append_drop], ?_⟩
    intro k hk
    refine ⟨0, u.take (wsLen u), bind_eq_done.2 ⟨(), 0, 0, ?_, ?_, rfl⟩, hws, drop_zero⟩
    · have hwsLen : wsLen (u.take (wsLen u) ++ closer.take k) = (u.take (wsLen u)).length := by
        have hnone : (closer.take k).takeWhile isWhitespace = [] := by
          cases closer with
          | nil => rw [take_nil, takeWhile_nil]
          | cons c rest =>
            have hc : isWhitespace c = false := by
              by_contra hc
              rw [takeWhile_cons_of_pos (by simpa using hc)] at hhead
              cases hhead
            cases k with
            | zero => rfl
            | succ k => rw [take_succ_cons, takeWhile_cons_of_neg (by simp [hc])]
        rw [wsLen, takeWhile_append_of_pos hws, hnone, append_nil]
      have hnot : ¬ closer.isPrefixOf (closer.take k) = true := by
        intro hpre
        have hle := ( isPrefixOf_iff_prefix.1 hpre).length_le
        rw [length_take] at hle
        omega
      rw [Backend.optionalCloser, hwsLen, drop_left, if_neg hnot]
      rfl
    · rw [hlook, h₂]
  · split at h₁
    · cases h₁
    next hnot hmore =>
      obtain ⟨-, rfl⟩ := Look.done.inj h₁
      -- nothing has been read, and nothing is there: then more is needed
      have hnil : u = [] := eq_nil_of_length_eq_zero (by omega)
      subst hnil
      simp at hmore

variable {name : Text}

theorem resolveBracketArray_ends : Ends bracketCloser 1 resolveBracketArray := by
  refine Ends.brackets fun body => Ends.optionalCloser (by decide) ?_
  split
  · exact ⟨_, fun _ => rfl, fun _ _ h => (Look.done.inj h).2.symm⟩
  · exact ⟨_, fun _ => rfl, fun _ _ h => (Look.done.inj h).2.symm⟩

theorem resolveBracketArgs_ends :
    Ends bracketCloser 1 fun atEos => resolveBracketArgs atEos name := by
  refine Ends.prompt peek_reads peek_prompt fun c => ?_
  refine Ends.ite (Ends.braces fun body => ?_) (Ends.pure_of_ne (by simp))
  split
  · exact Ends.pure_of_ne (by simp)
  · exact Ends.optionalCloser (by decide)
      ⟨_, fun _ => rfl, fun _ _ h => (Look.done.inj h).2.symm⟩

variable {dialect : CallDialect}

/-- What the metadata of the name form are followed by, where there are none: no bracket. -/
theorem resolveBracketArgs_head {atEos : Bool} {calls : List Generation.ToolCall}
    (h : (Reader.run isWhitespace >>= fun _ => resolveBracketArgs atEos name) s =
      .done (.calls dialect calls) len) : ∃ c, [c] <+: s ∧ c ≠ '[' := by
  obtain ⟨ws, len₁, len₂, hrun, h₁, -⟩ := bind_eq_done.1 h
  obtain ⟨c, len₃, _, hpeek, h₂, -⟩ := bind_eq_done.1 h₁
  cases s with
  | nil => cases hrun
  | cons d s =>
    refine ⟨d, by simp, ?_⟩
    rintro rfl
    -- a bracket is not white, and would be looked at
    rw [Reader.run, takeWhile_cons_of_neg (by decide)] at hrun
    obtain ⟨-, rfl⟩ := Look.done.inj hrun
    obtain ⟨rfl, -⟩ := Look.done.inj hpeek
    rw [if_neg (by decide)] at h₂
    cases h₂

omit [JsonText] in
/-- Whether a marker stands in front, where that can be seen in what comes before the closer. -/
theorem Ends.marker {p : Text} {g : Bool → Bool → Reader Char Verdict}
    (hg : ∀ b, Ends closer 1 fun atEos => g atEos b)
    (hnot : ∀ u dialect calls, g false false u = .done (.calls dialect calls) u.length →
      ∃ m, m <+: u ∧ couldBecome [p] m = false ∧ m.length + closer.length ≤ u.length) :
    Ends closer 1 fun atEos => Reader.marker p >>= g atEos := by
  intro u dialect calls hdone
  obtain ⟨b, len₁, len₂, h₁, h₂, hlen⟩ := bind_eq_done.1 hdone
  have hrest : g false b (u.drop len₁) = .done (.calls dialect calls) (u.drop len₁).length := by
    rw [length_drop, hlen, Nat.add_sub_cancel_left]
    exact h₂
  rw [Reader.marker] at h₁
  split at h₁
  next hpre =>
    cases h₁
    have hpre := isPrefixOf_iff_prefix.1 hpre
    refine .after hpre.length_le (Nat.le_add_left _ _) (fun t ht _ hroom => ?_) (hg true _ _ _ hrest)
    have hpre' : p <+: t := prefix_of_prefix_length_le hpre ht (by omega)
    rw [Reader.marker, if_pos ( isPrefixOf_iff_prefix.2 hpre')]
  next hpre =>
    split at h₁
    · cases h₁
    next hmay =>
      cases h₁
      rw [drop_zero] at hrest
      obtain ⟨m, hm, hdecided, hroom⟩ := hnot u dialect calls hrest
      refine .after (Nat.zero_le _) (Nat.le_add_left _ _) (fun t ht hlong _ => ?_)
        (hg false _ _ _ (by rw [drop_zero]; exact hrest))
      have hnotPre : ¬ p.isPrefixOf t = true := fun h => hpre
        ( isPrefixOf_iff_prefix.2 (( isPrefixOf_iff_prefix.1 h).trans ht))
      have hmt : m <+: t := prefix_of_prefix_length_le hm ht (by omega)
      have hnotMay : couldBecome [p] t = false := by
        obtain ⟨rest, rfl⟩ := hmt
        exact couldBecome_append hdecided rest
      rw [Reader.marker, if_neg hnotPre, hnotMay]
      rfl

omit [JsonText] in
theorem couldBecome_head {c d : Char} {p : Text} (h : c ≠ d) : couldBecome [d :: p]
    [c] = false := by
  rw [couldBecome_eq_false_iff]
  intro q hq hpre
  rw [mem_singleton.1 hq, cons_prefix_cons] at hpre
  exact absurd hpre.1 h

omit [JsonText] in
/-- Such a text is longer than its closer. -/
theorem EndsAt.room {u : Text} (h : EndsAt closer n f u v) : n + closer.length ≤ u.length := by
  obtain ⟨front, hfront, hu, -⟩ := h
  rw [hu, length_append]
  exact Nat.add_le_add_right hfront _

omit [JsonText] in
theorem EndsAt.cut {k : Nat} {front : Text} (h : EndsAt closer n f (front ++ closer) v)
    (hk : k < closer.length) :
    ∃ len ws, f true (front ++ closer.take k) = .done v len ∧
      (∀ c ∈ ws, isWhitespace c = true) ∧
        (front ++ closer.take k).drop len = ws ++ closer.take k := by
  obtain ⟨front', -, hsame, hends⟩ := h
  obtain rfl := append_cancel_right hsame
  exact hends k hk

theorem resolveBracketTail_ends : Ends bracketCloser 1 fun atEos =>
    (Reader.run isWhitespace >>= fun _ => resolveBracketArgs atEos name) :=
  prompt (run_reads _) (run_prompt _) fun _ => resolveBracketArgs_ends

theorem resolveBracketMeta_ends :
    Ends bracketCloser 1 fun atEos => resolveBracketMeta atEos name := by
  refine marker (fun _ => resolveBracketTail_ends) fun u dialect calls h => ?_
  obtain ⟨c, hpre, hc⟩ := resolveBracketArgs_head h
  exact ⟨[c], hpre, couldBecome_head hc, (resolveBracketTail_ends u dialect calls h).room⟩

theorem resolveBracketName_ends : Ends bracketCloser 1 resolveBracketName := by
  refine prompt (run_reads _) (run_prompt _) fun name => ?_
  refine ite (pure_of_ne (by simp)) (marker (fun b => ?_) ?_)
  · refine ite ?_ resolveBracketMeta_ends
    refine prompt (run_reads _) (run_prompt _) fun id => ?_
    exact ite (pure_of_ne (by simp)) resolveBracketMeta_ends
  intro u dialect calls h
  have hroom := (resolveBracketMeta_ends u dialect calls h).room
  obtain ⟨hasArgs, len₁, len₂, h₁, h₂, hlen⟩ := bind_eq_done.1 h
  rw [Reader.marker] at h₁
  split at h₁
  next hargs =>
    cases h₁
    have htail := (resolveBracketTail_ends (u.drop argsTag.length) dialect calls (by
      rw [length_drop, hlen, Nat.add_sub_cancel_left]
      exact h₂)).room
    rw [length_drop, show argsTag.length = 6 from rfl] at htail
    refine ⟨['[', 'A'], ?_, by decide, ?_⟩
    · exact List.IsPrefix.trans (by decide) ( isPrefixOf_iff_prefix.1 hargs)
    · simp only [length_cons, length_nil]
      omega
  · split at h₁
    · cases h₁
    · cases h₁
      obtain ⟨c, hpre, hc⟩ := resolveBracketArgs_head h₂
      exact ⟨[c], hpre, couldBecome_head hc, hroom⟩

theorem resolveBracket_ends : Ends bracketCloser 1 resolveBracket := by
  refine prompt (skip_reads _) (skip_prompt _) fun _ => ?_
  refine prompt (run_reads _) (run_prompt _) fun _ => ?_
  refine prompt peek_reads peek_prompt fun c => ?_
  exact ite resolveBracketArray_ends resolveBracketName_ends

theorem resolveGemmaBody_ends : Ends gemmaClose 1 fun atEos => resolveGemmaBody atEos name := by
  refine Ends.prompt (run_reads _) (run_prompt _) fun _ => ?_
  refine Ends.prompt peek_reads peek_prompt fun c => ?_
  refine Ends.ite (Ends.braces fun body => Ends.optionalCloser (by decide) ?_)
    (Ends.pure_of_ne (by simp))
  cases gemmaArgumentsToJson ((body.drop 1).dropLast) with
  | none => exact ⟨_, fun _ => rfl, fun _ _ h => nomatch h⟩
  | some args =>
    cases args with
    | none => exact ⟨_, fun _ => rfl, fun _ _ h => (Look.done.inj h).2.symm⟩
    | some args => exact ⟨_, fun _ => rfl, fun _ _ h => (Look.done.inj h).2.symm⟩

theorem resolveGemma_ends : Ends gemmaClose 1 resolveGemma := by
  refine prompt (skip_reads _) (skip_prompt _) fun _ => ?_
  refine prompt (run_reads _) (run_prompt _) fun _ => ?_
  refine marker (fun isCall => ?_) fun u dialect calls h => ?_
  · refine ite (pure_of_ne (by simp)) ?_
    refine prompt (run_reads _) (run_prompt _) fun _ => ?_
    refine prompt peek_reads peek_prompt fun c => ?_
    refine ite (pure_of_ne (by simp)) ?_
    refine prompt (skip_reads _) (skip_prompt _) fun _ => ?_
    refine prompt (run_reads _) (run_prompt _) fun _ => ?_
    refine prompt (run_reads _) (run_prompt _) fun name => ?_
    exact ite (pure_of_ne (by simp)) resolveGemmaBody_ends
  · cases h

/-! ## Closers that end the body -/

/-- Calls that are read up to the end of the text are not found without the end of the closer. -/
def Waits (closer : Text) (f : Bool → Reader Char Verdict) : Prop :=
  ∀ u dialect calls, f false u = .done (.calls dialect calls) u.length →
    ∀ t, t <+: u → t.length < u.length → u.length ≤ t.length + closer.length → f true t = .more

omit [JsonText] in
theorem Waits.pure_of_ne (h : ∀ dialect calls, v ≠ .calls dialect calls) :
    Waits closer fun _ => Pure.pure v := by
  intro u dialect calls hdone
  exact absurd (Look.done.inj hdone).1 (h dialect calls)

omit [JsonText] in
theorem Waits.ite {c : Prop} [Decidable c] {f g : Bool → Reader Char Verdict}
    (hf : Waits closer f) (hg : Waits closer g) :
    Waits closer fun atEos => if c then f atEos else g atEos := by
  split
  · exact hf
  · exact hg

omit [JsonText] in
theorem Waits.bind (hg : Reads True g) (hh : ∀ value, Waits closer fun atEos => h atEos value) :
    Waits closer fun atEos => g >>= h atEos := by
  intro u dialect calls hdone t ht hshort hlong
  obtain ⟨value, len₁, len₂, h₁, h₂, hlen⟩ := bind_eq_done.1 hdone
  dsimp only
  rw [bind_apply]
  by_cases hmore : g t = .more
  · rw [hmore]
  obtain ⟨rest, rfl⟩ := ht
  have hsame := hg.stable trivial rest hmore
  rw [h₁] at hsame
  have hle := hg.within hsame.symm
  have hrest : (fun atEos => h atEos value) true (t.drop len₁) = .more := by
    refine hh value ((t ++ rest).drop len₁) dialect calls ?_ _ ?_ ?_ ?_
    · rw [length_drop, hlen, Nat.add_sub_cancel_left]
      exact h₂
    · rw [drop_append_of_le_length hle]
      exact prefix_append _ _
    · rw [length_drop, length_drop]
      omega
    · rw [length_drop, length_drop]
      omega
  rw [← hsame]
  dsimp only at hrest ⊢
  rw [hrest]

theorem resolveTag_waits : Waits tagClose fun _ => resolveTag := by
  intro u dialect calls hdone t ht hshort _
  by_contra hmore
  obtain ⟨rest, rfl⟩ := ht
  have hreads : Reads True resolveTag := resolveTag_reads
  have hsame := hreads.stable trivial rest hmore
  have hle := hreads.within (hsame.symm.trans hdone)
  omega

omit [JsonText] in
theorem rfind_eq_some {needle : Text} (h : rfind s needle = some i) :
    needle <+: s.drop i ∧ ∀ j ≤ s.length, needle <+: s.drop j → j ≤ i := by
  rw [rfind] at h
  obtain ⟨hpre, front, back, hsplit, hfront⟩ := find?_eq_some_iff_append.1 h
  refine ⟨ isPrefixOf_iff_prefix.1 hpre, fun j hj hlater => ?_⟩
  by_contra hlt
  have hdesc : (range (s.length + 1)).reverse.Pairwise (· > ·) :=
    pairwise_reverse.2 pairwise_lt_range
  have hmem : j ∈ (range (s.length + 1)).reverse := by
    rw [mem_reverse, mem_range]
    omega
  rw [hsplit] at hdesc hmem
  rcases mem_append.1 hmem with hj' | hj'
  · have hnot := hfront j hj'
    rw [ isPrefixOf_iff_prefix.2 hlater] at hnot
    cases hnot
  · rcases mem_cons.1 hj' with rfl | hj'
    · exact hlt (Nat.le_refl _)
    · exact hlt (Nat.le_of_lt
        ((pairwise_cons.1 (pairwise_append.1 hdesc).2.1).1 j hj'))

omit [JsonText] in
theorem exists_rfind {needle : Text} (hi : i ≤ s.length) (h : needle <+: s.drop i) :
    ∃ j, rfind s needle = some j := by
  refine Option.isSome_iff_exists.1 (find?_isSome.2 ⟨i, ?_, isPrefixOf_iff_prefix.2 h⟩)
  rw [mem_reverse, mem_range]
  omega

omit [JsonText] in
/-- A closer of a parameter in a text that ends with that of a function is in front of it. -/
theorem paramClose_before (h : paramClose <+: (body ++ funcClose).drop i) :
    i + paramClose.length ≤ body.length := by
  have hroom := h.length_le
  rw [length_drop, length_append, show funcClose.length = 11 from rfl,
    show paramClose.length = 12 from rfl] at hroom
  rw [show paramClose.length = 12 from rfl]
  by_contra hover
  obtain ⟨m, hm⟩ : ∃ m, body.length = i + m := ⟨body.length - i, by omega⟩
  -- where the closer of the function begins, that of the parameter would go on with its beginning
  have hdrop : paramClose.drop m <+: funcClose := by
    obtain ⟨rest, hrest⟩ := h
    have hcut := congrArg (drop m) hrest
    rw [drop_append_of_le_length (by rw [show paramClose.length = 12 from rfl]; omega),
      drop_drop, ← hm, drop_left] at hcut
    exact ⟨rest, hcut⟩
  have hcases : m = 1 ∨ m = 2 ∨ m = 3 ∨ m = 4 ∨ m = 5 ∨ m = 6 ∨ m = 7 ∨ m = 8 ∨ m = 9 ∨ m = 10 ∨
      m = 11 := by omega
  rcases hcases with rfl | rfl | rfl | rfl | rfl | rfl | rfl | rfl | rfl | rfl | rfl <;>
    exact absurd hdrop (by decide)

omit [JsonText] in
/-- The end of a function that is found at the end of a text is not found without it, even where no
more is to come: what is inside a parameter there is inside one here. -/
theorem funcCloseIndex_cutOff {t : Text}
    (h : funcCloseIndex (body ++ funcClose) false = some body.length) (ht : t <+: body ++ funcClose)
    (hshort : t.length < (body ++ funcClose).length) (hlong : body.length ≤ t.length) :
    funcCloseIndex t true = none := by
  cases hfound : funcCloseIndex t true with
  | none => rfl
  | some idx =>
    exfalso
    obtain ⟨hpre, hnotIn⟩ := funcCloseIndex_eq_some hfound
    obtain ⟨-, hends⟩ := funcCloseIndex_eq_some h
    have hroom := hpre.length_le
    rw [length_drop, show funcClose.length = 11 from rfl] at hroom
    rw [length_append, show funcClose.length = 11 from rfl] at hshort
    obtain ⟨rest, hrest⟩ := ht
    -- it is a closer in the longer text too, and there it is inside a parameter
    have hinside : insideOpenParameter (body ++ funcClose) idx false = true := by
      rw [funcCloseIndex, find?_range_eq_some] at h
      have hnot := h.2.2 idx (by omega)
      have hstands : funcClose.isPrefixOf ((body ++ funcClose).drop idx) = true := by
        rw [← hrest, drop_append_of_le_length (by omega)]
        exact isPrefixOf_iff_prefix.2 (hpre.trans (prefix_append _ _))
      rw [hstands, Bool.true_and, Bool.not_not] at hnot
      exact hnot
    have htake : (body ++ funcClose).take idx = t.take idx := by
      rw [← hrest, take_append_of_le_length (by omega)]
    rw [insideOpenParameter, htake] at hinside
    rw [insideOpenParameter] at hnotIn
    cases hparam : rfind (t.take idx) paramOpen with
    | none => simp [hparam] at hinside
    | some paramStart =>
      rw [hparam] at hinside hnotIn
      dsimp only at hinside hnotIn
      have hle := rfind_le hparam
      rw [length_take] at hle
      cases hclose : find paramClose ((body ++ funcClose).drop paramStart) with
      | some rel =>
        -- the parameter is closed in front of the closer, which is in both texts
        rw [hclose] at hinside
        obtain ⟨-, hcloser, hfirst⟩ := find_eq_some_iff.1 hclose
        have hbefore := paramClose_before (by rwa [drop_drop] at hcloser)
        have hsame : find paramClose (t.drop paramStart) = some rel := by
          refine find_eq_some_iff.2 ⟨?_, ?_, fun j hj hearlier => hfirst j hj ?_⟩
          · rw [length_drop]
            omega
          · refine prefix_of_prefix_length_le hcloser ?_ ?_
            · rw [← hrest, drop_drop, drop_drop, drop_append_of_le_length (by omega)]
              exact prefix_append _ _
            · rw [length_drop, length_drop]
              omega
          · rw [drop_drop] at hearlier
            rw [← hrest, drop_drop, drop_append_of_le_length (by omega)]
            exact hearlier.trans (prefix_append _ _)
        rw [hsame] at hnotIn
        cases hinside.symm.trans hnotIn
      | none =>
        -- then it is open at the end of the longer text too
        have hstands : paramOpen <+: ((body ++ funcClose).take body.length).drop paramStart := by
          obtain ⟨hopen, -⟩ := rfind_eq_some hparam
          refine hopen.trans ?_
          rw [← htake, drop_take, drop_take]
          exact take_prefix_take_left (by omega)
        have hstart : paramStart ≤ ((body ++ funcClose).take body.length).length := by
          rw [length_take, length_append]
          omega
        obtain ⟨last, hlast⟩ := exists_rfind hstart hstands
        have hafter := (rfind_eq_some hlast).2 paramStart hstart hstands
        rw [insideOpenParameter, hlast] at hends
        dsimp only at hends
        cases hlater : find paramClose ((body ++ funcClose).drop last) with
        | none => simp [hlater] at hends
        | some rel =>
          refine (find_eq_none_iff (by decide)).1 hclose (last - paramStart + rel) ?_
          obtain ⟨-, hcloser, -⟩ := find_eq_some_iff.1 hlater
          rw [drop_drop] at hcloser ⊢
          rwa [show paramStart + (last - paramStart + rel) = last + rel by omega]

theorem resolveFunc_waits : Waits funcClose resolveFunc := by
  refine Waits.bind (skip_reads _) fun _ => Waits.bind (run_reads _) fun name => ?_
  refine Waits.bind peek_reads fun c => Waits.ite (Waits.pure_of_ne (by simp)) ?_
  refine Waits.bind (skip_reads _) fun _ => ?_
  intro u dialect calls hdone t ht hshort hlong
  obtain ⟨body, len₁, len₂, hbody, hcalls, hlen⟩ := bind_eq_done.1 hdone
  -- nothing is read behind the body
  have hzero : len₂ = 0 := by
    cases hargs : parseParameters body with
    | none =>
      rw [hargs] at hcalls
      exact (Look.done.inj hcalls).2.symm
    | some args =>
      rw [hargs] at hcalls
      exact (Look.done.inj hcalls).2.symm
  rw [funcBody] at hbody
  split at hbody
  · cases hbody
  next close hclose =>
    obtain ⟨-, rfl⟩ := Look.done.inj hbody
    have hpre := (funcCloseIndex_eq_some hclose).1
    have hu : u = u.take close ++ funcClose := by
      have hends : u.drop close = funcClose := by
        refine (hpre.eq_of_length_le ?_).symm
        rw [length_drop]
        omega
      rw [← hends, take_append_drop]
    have htakeLen : (u.take close).length = close := by
      rw [length_take]
      omega
    rw [hu] at hclose ht hshort
    have hnone := funcCloseIndex_cutOff (by rw [hclose, htakeLen]) ht hshort (by omega)
    dsimp only
    rw [bind_apply, funcBody, hnone]

/-! ## The flush -/

variable {p : ToolCallParser} {start : Nat} {trigger : Trigger} {calls : List Generation.ToolCall}

omit [JsonText] in
theorem buf_ne_nil (hfound : p.findTrigger = some (start, trigger)) : p.buf ≠ [] := by
  have hroom := (findTrigger_room hfound).2.2.1
  have hpos := opener_pos trigger
  intro hnil
  rw [hnil, length_nil] at hroom
  omega

/-- What is left at the end is text, and no call is put out. -/
theorem flush_throws_back (hthink : p.inThink = none)
    (hfound : p.findTrigger = some (start, trigger))
    (hresolve : resolve p.enabledTools true (p.buf.take start) start trigger (p.buf.drop start) =
      some (.needMore start)) :
    ∃ outputs p', p.flush = some (outputs, p') ∧ ∀ call, .toolCall call ∉ outputs := by
  set q : ToolCallParser := { p with atEos := true }
  have hround : q.round = some (.needMore start) :=
    (round_of_found (q := q) hthink hfound).trans hresolve
  refine ⟨_, _, flush_of_drains (buf_ne_nil hfound) ((drainInto_drains q).of_waits hround rfl),
    fun call hmem => ?_⟩
  rcases mem_append.1 hmem with hmem | hmem
  · rw [flatMap_singleton, ToolCallParser.outputs, hround] at hmem
    rcases mem_append.1 hmem with hmem | hmem
    · cases start with
      | zero => cases hmem
      | succ start => cases mem_singleton.1 hmem
    · cases hmem
  · split at hmem
    · cases hmem
    · cases mem_singleton.1 hmem

/-- The calls are put out, and what is left behind them is text. -/
theorem flush_emits (hthink : p.inThink = none) (hfound : p.findTrigger = some (start, trigger))
    (hresolve : resolve p.enabledTools true (p.buf.take start) start trigger (p.buf.drop start) =
      some (.complete start (start + len) dialect calls))
    (hrest : ∀ q : ToolCallParser, q.buf = (p.buf.drop start).drop len → q.findTrigger = none) :
    ∃ before after p', p.flush = some (before ++ calls.map .toolCall ++ after, p') := by
  set q : ToolCallParser := { p with atEos := true }
  set r : Resolution := .complete start (start + len) dialect calls
  have hround : q.round = some r := (round_of_found (q := q) hthink hfound).trans hresolve
  have hnone : (q.after r).findTrigger = none := hrest (q.after r) (by
    rw [drop_drop]
    rfl)
  obtain ⟨c, hdrains, hcourse⟩ := (drainInto_drains q).of_next hround rfl
  obtain rfl := hdrains.of_waits (round_of_none hthink hnone) rfl
  have houtputs : q.outputs = r.textOutput q.buf ++ calls.map .toolCall := by
    rw [ToolCallParser.outputs, hround]
    rfl
  rw [flush_of_drains (buf_ne_nil hfound) hcourse, flatMap_cons, houtputs, append_assoc]
  exact ⟨_, _, _, rfl⟩

omit [JsonText] in
theorem opener_head (trigger : Trigger) :
    ∃ c rest, trigger.opener = c :: rest ∧ isWhitespace c = false := by
  cases trigger with
  | thinkOpen kind => cases kind <;> exact ⟨_, _, rfl, by decide⟩
  | _ => exact ⟨_, _, rfl, by decide⟩

omit [JsonText] in
theorem find_opener_closer {trigger other : Trigger} (h : trigger = .bracket ∨ trigger = .gemma) :
    find other.opener trigger.closer = none := by
  rcases h with rfl | rfl <;> cases other with
  | thinkOpen kind => cases kind <;> decide
  | _ => decide

omit [JsonText] in
/-- No opener stands in white space and the beginning of one of these closers. -/
theorem findTrigger_closer {trigger : Trigger} (h : trigger = .bracket ∨ trigger = .gemma)
    {ws : Text} (hws : ∀ c ∈ ws, isWhitespace c = true) (k : Nat) {q : ToolCallParser}
    (hbuf : q.buf = ws ++ trigger.closer.take k) : q.findTrigger = none := by
  cases hfound : q.findTrigger with
  | none => rfl
  | some found =>
    obtain ⟨j, other⟩ := found
    obtain ⟨-, hpre, -⟩ := findTrigger_room hfound
    rw [hbuf, drop_append] at hpre
    cases hwhite : ws.drop j with
    | nil =>
      rw [hwhite, nil_append] at hpre
      have hne : other.opener ≠ [] := length_pos_iff.1 (opener_pos other)
      refine absurd ?_ ((find_eq_none_iff hne).1 (find_opener_closer h) (j - ws.length))
      rw [drop_take] at hpre
      exact hpre.trans ( take_prefix _ _)
    | cons c rest =>
      -- an opener does not begin with white space
      have hc := hws c (mem_of_mem_drop (hwhite ▸ mem_cons_self))
      obtain ⟨d, more, hopener, hd⟩ := opener_head other
      rw [hwhite, hopener, cons_append, cons_prefix_cons] at hpre
      rw [hpre.1, hc] at hd
      cases hd

theorem calls_ne_nil {enabledTools : Option (List Text)} {atEos : Bool} {before : Text}
    {textEnd consumedEnd : Nat}
    (h : resolve enabledTools atEos before start trigger s =
      some (.complete textEnd consumedEnd dialect calls)) : calls ≠ [] := by
  cases resolve_resolves h with
  | calls _ _ _ hcalls => exact hcalls

/-- **At the end of the text, the calls of a block whose closer has not arrived come out** if and
only if the format is one that can do without: the brackets or Gemma's. -/
theorem flush_emits_iff (hthink : p.inThink = none) (hfound : p.findTrigger = some (start, trigger))
    (hcut : CutOff trigger (p.buf.drop start) calls) :
    (∃ before after p', p.flush = some (before ++ calls.map .toolCall ++ after, p')) ↔
      trigger = .bracket ∨ trigger = .gemma := by
  obtain ⟨front, k, dialect, hk, hbuf, hwhole⟩ := hcut
  have hprefix : p.buf.drop start <+: front ++ trigger.closer := by
    rw [hbuf]
    exact (List.prefix_append_right_inj _).2 ( List.take_prefix _ _)
  have hshort : (p.buf.drop start).length < (front ++ trigger.closer).length := by
    rw [hbuf, List.length_append, List.length_append, List.length_take]
    omega
  have hlong : (front ++ trigger.closer).length ≤
      (p.buf.drop start).length + trigger.closer.length := by
    rw [hbuf, List.length_append, List.length_append]
    omega
  have hcalls := calls_ne_nil hwhole
  have hnotEmitted : (∃ outputs p', p.flush = some (outputs, p') ∧
      ∀ call, .toolCall call ∉ outputs) →
      ¬ ∃ before after p', p.flush = some (before ++ calls.map .toolCall ++ after, p') := by
    rintro ⟨outputs, p', hflush, hnone⟩ ⟨before, after, p'', hemits⟩
    obtain ⟨call, more, rfl⟩ := List.exists_cons_of_ne_nil hcalls
    refine hnone call ?_
    rw [(Prod.mk.inj (Option.some.inj (hflush.symm.trans hemits))).1]
    simp
  cases trigger with
  | thinkOpen kind => cases hk
  | rehearsal => cases hk
  | tag =>
    refine ⟨fun h => absurd h (hnotEmitted ?_), fun h => by simp at h⟩
    obtain ⟨-, len, hlen, hlook⟩ := ofLook_eq_complete hwhole
    rw [Nat.zero_add] at hlen
    rw [← hlen] at hlook
    have hmore : resolveTag (p.buf.drop start) = .more :=
      resolveTag_waits _ _ _ hlook _ hprefix hshort hlong
    refine flush_throws_back hthink hfound ?_
    rw [resolve, hmore]
    rfl
  | func =>
    refine ⟨fun h => absurd h (hnotEmitted ?_), fun h => by simp at h⟩
    obtain ⟨-, len, hlen, hlook⟩ := ofLook_eq_complete hwhole
    rw [Nat.zero_add] at hlen
    rw [← hlen] at hlook
    refine flush_throws_back hthink hfound ?_
    rw [resolve, resolveFunc_waits _ _ _ hlook _ hprefix hshort hlong]
    rfl
  | bracket =>
    refine ⟨fun _ => .inl rfl, fun _ => ?_⟩
    obtain ⟨-, len, hlen, hlook⟩ := ofLook_eq_complete hwhole
    rw [Nat.zero_add] at hlen
    rw [← hlen] at hlook
    obtain ⟨len', ws, hcalls', hws, hdrop⟩ := (resolveBracket_ends _ _ _ hlook).cut hk
    have hbuf : p.buf.drop start = front ++ bracketCloser.take k := hbuf
    rw [← hbuf] at hcalls' hdrop
    have hresolve : resolve p.enabledTools true (p.buf.take start) start .bracket
        (p.buf.drop start) = some (.complete start (start + len') dialect calls) := by
      rw [resolve, hcalls']
      rfl
    exact flush_emits hthink hfound hresolve fun q hq =>
      findTrigger_closer (.inl rfl) hws k (hq.trans hdrop)
  | gemma =>
    refine ⟨fun _ => .inr rfl, fun _ => ?_⟩
    obtain ⟨-, len, hlen, hlook⟩ := ofLook_eq_complete hwhole
    rw [Nat.zero_add] at hlen
    rw [← hlen] at hlook
    obtain ⟨len', ws, hcalls', hws, hdrop⟩ := (resolveGemma_ends _ _ _ hlook).cut hk
    have hbuf : p.buf.drop start = front ++ gemmaClose.take k := hbuf
    rw [← hbuf] at hcalls' hdrop
    have hresolve : resolve p.enabledTools true (p.buf.take start) start .gemma
        (p.buf.drop start) = some (.complete start (start + len') dialect calls) := by
      rw [resolve, hcalls']
      rfl
    exact flush_emits hthink hfound hresolve fun q hq =>
      findTrigger_closer (.inr rfl) hws k (hq.trans hdrop)

end

/-- A call in a tag, whose closer has only begun. -/
def halfClosed : Text :=
  "<tool_call>\x7b\"name\":\"f\",\"arguments\":\x7b\x7d\x7d</tool_".toList

/-- The values of the example. -/
def halfClosedJson : List (String × Json) :=
  [("\x7b\"name\":\"f\",\"arguments\":\x7b\x7d\x7d",
      .object [("name", .string "f"), ("arguments", .object [])]),
    ("\x7b\x7d", .object [])]

/-- A call whose closer is cut off is put out as text. -/
theorem halfClosed_thrown_back :
    letI := JsonText.table halfClosedJson
    ¬ ∀ trigger s calls, CutOff trigger s calls →
      ∃ before after, (ToolCallParser.new .auto).run [s] =
        some (before ++ calls.map .toolCall ++ after) := by
  let _ := JsonText.table halfClosedJson
  intro h
  have hcut : CutOff .tag halfClosed [⟨none, "f".toList, "\x7b\x7d".toList⟩] :=
    ⟨halfClosed.take 38, 7, .cleanJson, by decide, by decide +kernel, by decide +kernel⟩
  obtain ⟨before, after, hrun⟩ := h _ _ _ hcut
  have htext : (ToolCallParser.new .auto).run [halfClosed] = some [.text halfClosed] := by
    decide +kernel
  have hmem : ParserOutput.toolCall ⟨none, "f".toList, "\x7b\x7d".toList⟩ ∈
      [ParserOutput.text halfClosed] := by
    rw [Option.some.inj (htext.symm.trans hrun)]
    simp
  cases List.mem_singleton.1 hmem

/-- The same call in Gemma's format. -/
def gemmaHalfClosed : ToolCallParser :=
  { ToolCallParser.new .auto with buf := "<|tool_call>call:f\x7b\x7d<tool_".toList }

theorem gemmaHalfClosed_emitted :
    letI := JsonText.table halfClosedJson
    (∃ before after p', gemmaHalfClosed.flush =
      some (before ++ [.toolCall ⟨none, "f".toList, "\x7b\x7d".toList⟩] ++ after, p')) ↔
        Trigger.gemma = .bracket ∨ Trigger.gemma = .gemma := by
  let _ := JsonText.table halfClosedJson
  have hfound : gemmaHalfClosed.findTrigger = some (0, .gemma) := by decide +kernel
  have hcut : CutOff .gemma (gemmaHalfClosed.buf.drop 0)
      [⟨none, "f".toList, "\x7b\x7d".toList⟩] :=
    ⟨"<|tool_call>call:f\x7b\x7d".toList, 6, .gemmaDialect, by decide, by decide +kernel,
      by decide +kernel⟩
  exact flush_emits_iff rfl hfound hcut

end Backend
end Gen2
