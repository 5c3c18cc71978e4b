import Gen2.Backend.Resolvers

/-!
# Runs of the tool-call parser

What a round of the parser can do, and what follows for any order in which text arrives and rounds
are made.

* `Resolves` is what can be found at a trigger, and `Rounds` what a round can come to.
* A round takes its text and its markup off the front of the buffer, and a round that does not wait
  takes off something (`Rounds.bounds`).  So the loop ends of itself (`drainInto_drains`).
* `Keeps` is an invariant of the parser, along a ghost that every round takes a step further; it
  holds before every round, however the text has been cut (`Keeps.runCourse`).
-/

namespace Gen2
namespace Backend

open Lib Reader List ToolCallParser Resolution

/-- A parser that has read nothing. -/
def ToolCallParser.start (protocol : Protocol) : Option (List Text) → ToolCallParser
  | none => new protocol
  | some tools => (new protocol).withEnabledTools tools

/-! ## What a round can do -/

/-- What can be found at a trigger, with so much text from there on. -/
inductive Resolves (trigger : Trigger) (start avail : Nat) : Resolution → Prop
  | think (kind : ThinkKind) (htrigger : trigger = .thinkOpen kind) :
    Resolves trigger start avail (.enterThink kind (start + trigger.opener.length))
  | wait {callStart : Nat} (hstart : callStart ≤ start) :
    Resolves trigger start avail (.needMore callStart)
  | bare : Resolves trigger start avail (.notACall (start + trigger.opener.length) false)
  | noCall {len : Nat} {malformed : Bool} (hopener : trigger.opener.length ≤ len)
    (hlen : len ≤ avail) : Resolves trigger start avail (.notACall (start + len) malformed)
  | calls {callStart len : Nat} {dialect : CallDialect} {calls : List Generation.ToolCall}
    (hstart : callStart ≤ start) (hopener : trigger.opener.length ≤ len) (hlen : len ≤ avail)
    (hcalls : calls ≠ []) : Resolves trigger start avail (.complete callStart (start + len) dialect calls)

/-- What begins with reading the opener reads that much. -/
theorem skip_bind_le {β : Type} {n : Nat} {g : List Char → Reader Char β} {s : Text} {value : β}
    {len : Nat} (h : (Reader.skip n >>= g) s = .done value len) : n ≤ len := by
  obtain ⟨_, len₁, len₂, hskip, -, rfl⟩ := bind_eq_done.1 h
  rw [Reader.skip] at hskip
  split at hskip
  · cases hskip
    exact Nat.le_add_right _ _
  · cases hskip

theorem ofLook_resolves {trigger : Trigger} {callStart start : Nat} {s : Text} {firm : Prop}
    {f : Reader Char Verdict} {r : Resolution} (hreads : Reads firm f)
    (hyields : Yields Verdict.HasCalls f)
    (hopener : ∀ {value len}, f s = .done value len → trigger.opener.length ≤ len)
    (hstart : callStart ≤ start)
    (h : ofLook callStart start trigger.opener.length (f s) = some r) :
    Resolves trigger start s.length r := by
  cases hlook : f s with
  | crash => simp [hlook, ofLook] at h
  | more =>
    rw [hlook] at h
    obtain rfl := Option.some.inj h
    exact .wait hstart
  | done verdict len =>
    have hlen := hreads.within hlook
    have hopener := hopener hlook
    rw [hlook] at h
    cases verdict with
    | calls dialect calls =>
      obtain rfl := Option.some.inj h
      exact .calls hstart hopener hlen (hyields _ _ _ hlook)
    | noCall malformed =>
      obtain rfl := Option.some.inj h
      exact .noCall hopener hlen
    | bare =>
      obtain rfl := Option.some.inj h
      exact .bare

section
variable [JsonText]

variable {trigger : Trigger}

/-- **What is found at a trigger.** -/
theorem resolve_resolves {enabledTools : Option (List Text)} {atEos : Bool} {before : Text}
    {start : Nat} {s : Text} {r : Resolution}
    (h : resolve enabledTools atEos before start trigger s = some r) :
    Resolves trigger start s.length r := by
  cases trigger with
  | tag =>
    have hreads : Reads True resolveTag := resolveTag_reads
    exact ofLook_resolves hreads (resolveTag_yields.mono fun _ h => h.hasCalls) skip_bind_le
      (Nat.le_refl _) h
  | bracket =>
    exact ofLook_resolves (resolveBracket_reads atEos) (resolveBracket_yields atEos) skip_bind_le
      (Nat.le_refl _) h
  | gemma =>
    exact ofLook_resolves (resolveGemma_reads atEos)
      ((resolveGemma_yields atEos).mono fun _ h => h.hasCalls) skip_bind_le (Nat.le_refl _) h
  | func =>
    exact ofLook_resolves (resolveFunc_reads atEos)
      ((resolveFunc_yields atEos).mono fun _ h => h.hasCalls) skip_bind_le (Nat.le_refl _) h
  | thinkOpen kind =>
    obtain rfl := Option.some.inj h
    exact .think kind rfl
  | rehearsal =>
    rw [resolve] at h
    split at h
    · cases h
    · obtain rfl := Option.some.inj h
      exact .bare
    next name _ =>
      have hreads : Reads True (resolveArgs name) := resolveArgs_reads name
      exact ofLook_resolves hreads ((resolveArgs_yields name).mono fun _ h => h.hasCalls) skip_bind_le
        (Nat.sub_le _ _) h

/-- What a round can come to. -/
inductive Rounds (p : ToolCallParser) : Resolution → Prop
  | thinking (kind : ThinkKind) (hthink : p.inThink = some kind)
    (hclose : find kind.close p.buf = none) :
    Rounds p (.needMore (safeReleaseEnd p.buf [kind.close]))
  | leaves (kind : ThinkKind) (start : Nat) (hthink : p.inThink = some kind)
    (hclose : find kind.close p.buf = some start) :
    Rounds p (.leaveThink (start + kind.close.length))
  | plain (hthink : p.inThink = none) (hnone : p.findTrigger = none) :
    Rounds p (.needMore p.safeEnd)
  | found {start : Nat} {trigger : Trigger} {r : Resolution} (hthink : p.inThink = none)
    (hfound : p.findTrigger = some (start, trigger))
    (hroom : start + trigger.opener.length ≤ p.buf.length)
    (hresolve : resolve p.enabledTools p.atEos (p.buf.take start) start trigger
      (p.buf.drop start) = some r)
    (h : Resolves trigger start (p.buf.length - start) r) : Rounds p r

variable {p : ToolCallParser}

omit [JsonText] in
theorem findTrigger_room {start : Nat} (h : p.findTrigger = some (start, trigger)) :
    trigger ∈ p.triggers ∧ trigger.opener <+: p.buf.drop start ∧
      start + trigger.opener.length ≤ p.buf.length ∧
        ∀ j < start, ∀ t ∈ p.triggers, ¬ t.opener <+: p.buf.drop j := by
  obtain ⟨⟨c, hc, htrigger, hpre, hroom⟩, hmin⟩ := earliest_some h
  obtain ⟨t, ht, rfl⟩ := mem_map.1 hc
  obtain rfl : t = trigger := htrigger
  exact ⟨ht, hpre, hroom, fun j hj t ht =>
    hmin j hj (t.opener, t) (mem_map_of_mem ht)⟩

/-- **What a round comes to.** -/
theorem round_rounds {r : Resolution} (h : p.round = some r) : Rounds p r := by
  rw [ToolCallParser.round] at h
  split at h
  next kind hthink =>
    split at h
    next start hclose =>
      obtain rfl := Option.some.inj h
      exact .leaves kind start hthink hclose
    next hclose =>
      obtain rfl := Option.some.inj h
      exact .thinking kind hthink hclose
  next hthink =>
    split at h
    next hnone =>
      obtain rfl := Option.some.inj h
      exact .plain hthink hnone
    next start trigger hfound =>
      have hresolves := resolve_resolves h
      rw [length_drop] at hresolves
      exact .found hthink hfound (findTrigger_room hfound).2.2.1 h hresolves

/-- A round where nothing is found. -/
theorem round_of_none {q : ToolCallParser} (hthink : q.inThink = none) (h : q.findTrigger = none) :
    q.round = some (.needMore q.safeEnd) := by
  rw [ToolCallParser.round, hthink]
  dsimp only
  rw [h]

/-- A round where a trigger is found. -/
theorem round_of_found {q : ToolCallParser} {start : Nat} (hthink : q.inThink = none)
    (h : q.findTrigger = some (start, trigger)) :
    q.round = resolve q.enabledTools q.atEos (q.buf.take start) start trigger (q.buf.drop start) := by
  rw [ToolCallParser.round, hthink]
  dsimp only
  rw [h]

omit [JsonText] in
theorem opener_pos (trigger : Trigger) : 0 < trigger.opener.length := by
  cases trigger with
  | thinkOpen kind => cases kind <;> decide
  | _ => decide

omit [JsonText] in
theorem close_pos (kind : ThinkKind) : 0 < kind.close.length := by
  cases kind <;> decide

omit [JsonText] in
theorem safeEnd_le (p : ToolCallParser) : p.safeEnd ≤ p.buf.length := by
  rw [safeEnd]
  have hsafe : safeReleaseEnd p.buf p.holdLiterals ≤ p.buf.length := Nat.sub_le _ _
  split
  · exact Nat.le_trans (Nat.min_le_left _ _) hsafe
  · exact hsafe

/-- **How much a round takes off the buffer**: the text comes first, and a round that does not wait
takes off something. -/
theorem Rounds.bounds {r : Resolution} (h : Rounds p r) :
    r.textEnd ≤ r.consumedEnd ∧ r.consumedEnd ≤ p.buf.length ∧
      (r.waits = false → 0 < r.consumedEnd) := by
  cases h with
  | thinking kind _ _ => exact ⟨Nat.le_refl _, Nat.sub_le _ _, by simp [waits]⟩
  | leaves kind start _ hclose =>
    have hpos := close_pos kind
    exact ⟨Nat.le_refl _, find_le hclose, fun _ => Nat.lt_of_lt_of_le hpos (Nat.le_add_left _ _)⟩
  | plain _ _ => exact ⟨Nat.le_refl _, safeEnd_le p, by simp [waits]⟩
  | @found start trigger r _ _ hroom _ hresolves =>
    have hpos := opener_pos trigger
    cases hresolves with
    | think kind htrigger =>
      simp only [textEnd, consumedEnd]
      omega
    | wait hstart =>
      simp only [textEnd, consumedEnd, waits]
      refine ⟨Nat.le_refl _, by omega, by simp⟩
    | bare =>
      simp only [textEnd, consumedEnd]
      omega
    | noCall hopener hlen =>
      simp only [textEnd, consumedEnd]
      omega
    | calls hstart hopener hlen _ =>
      simp only [textEnd, consumedEnd]
      omega

end

/-! ## What is released -/

/-- What the parser looks for. -/
def ToolCallParser.sought (p : ToolCallParser) : List Text :=
  match p.inThink with
  | some kind => [kind.close]
  | none => p.triggers.map Trigger.opener

/-- The openers stand apart. -/
theorem openers_apart (p : ToolCallParser) : Apart (p.triggers.map Trigger.opener) := by
  have hall : Apart ([.thinkOpen .xml, .thinkOpen .bracket, .thinkOpen .channel, .tag, .bracket,
      .gemma, .func, .rehearsal].map Trigger.opener) := by decide +kernel
  refine hall.subset fun t ht => ?_
  obtain ⟨trigger, -, rfl⟩ := mem_map.1 ht
  refine mem_map_of_mem ?_
  cases trigger with
  | thinkOpen kind => cases kind <;> simp
  | _ => simp

/-- Text before a trigger is clear of openers. -/
theorem clear_trigger {p : ToolCallParser} {start : Nat} {trigger : Trigger}
    (h : p.findTrigger = some (start, trigger)) :
    Clear (p.triggers.map Trigger.opener) start p.buf := by
  obtain ⟨hmem, hpre, hroom, hmin⟩ := findTrigger_room h
  refine clear_before (openers_apart p) (mem_map_of_mem hmem)
    (length_pos_iff.1 (opener_pos trigger)) hroom hpre fun j hj t ht => ?_
  obtain ⟨other, hother, rfl⟩ := mem_map.1 ht
  exact hmin j hj other hother

/-- What is held back is what could become an opener, and more. -/
theorem openers_held (p : ToolCallParser) : p.triggers.map Trigger.opener ⊆ p.holdLiterals := by
  obtain ⟨protocol, buf, inThink, enabledTools, tally, atEos⟩ := p
  cases protocol <;> cases enabledTools <;>
    simp [triggers, holdLiterals, Trigger.opener]

/-- **What is released while nothing is found** is clear of what is looked for. -/
theorem clear_safeEnd {p : ToolCallParser} (h : p.findTrigger = none) :
    Clear (p.triggers.map Trigger.opener) p.safeEnd p.buf := by
  have hle : p.safeEnd ≤ p.buf.length - holdLen p.holdLiterals p.buf := by
    rw [safeEnd]
    split
    · exact Nat.min_le_left _ _
    · exact Nat.le_refl _
  refine clear_of_holdLen (openers_held p) hle fun j _ t ht => ?_
  obtain ⟨trigger, hmem, rfl⟩ := mem_map.1 ht
  have hne : ∀ c ∈ p.triggers.map fun trigger => (trigger.opener, trigger), c.1 ≠ [] :=
    forall_mem_map.2 fun trigger _ => length_pos_iff.1 (opener_pos trigger)
  exact earliest_none hne h j
    (mem_map_of_mem (f := fun trigger : Trigger => (trigger.opener, trigger)) hmem)

/-- The same in a reasoning block, of its closer. -/
theorem clear_thinking {kind : ThinkKind} {buf : Text} (h : find kind.close buf = none) :
    Clear [kind.close] (safeReleaseEnd buf [kind.close]) buf := by
  refine clear_of_holdLen (List.Subset.refl _) (Nat.le_refl _) fun j _ t ht => ?_
  obtain rfl := mem_singleton.1 ht
  exact (find_eq_none_iff (length_pos_iff.1 (close_pos kind))).1 h j

/-- Text before the closer of a reasoning block is clear of it. -/
theorem clear_close {kind : ThinkKind} {buf : Text} {start : Nat}
    (h : find kind.close buf = some start) : Clear [kind.close] start buf := by
  obtain ⟨-, hpre, hmin⟩ := find_eq_some_iff.1 h
  have hapart : Apart [kind.close] := by cases kind <;> decide +kernel
  refine clear_before hapart (mem_singleton_self _) (length_pos_iff.1 (close_pos kind))
    (find_le h) hpre fun j hj t ht => ?_
  obtain rfl := mem_singleton.1 ht
  exact hmin j hj

section
variable [JsonText]

/-! ## Rounds until one waits -/

/-- A loop of rounds: it ends with one that waits, or that panics. -/
inductive Drains : ToolCallParser → Course → Prop
  | panics {p : ToolCallParser} (h : p.round = none) : Drains p ⟨[p], none⟩
  | waits {p : ToolCallParser} {r : Resolution} (h : p.round = some r) (hwaits : r.waits = true) :
    Drains p ⟨[p], some (p.after r)⟩
  | next {p : ToolCallParser} {r : Resolution} {c : Course} (h : p.round = some r)
    (hwaits : r.waits = false) (hrest : Drains (p.after r) c) : Drains p ⟨p :: c.rounds, c.final⟩

variable {q : ToolCallParser} {c : Course}

theorem Drains.of_waits (hdrains : Drains q c) {r : Resolution} (h : q.round = some r)
    (hwaits : r.waits = true) : c = ⟨[q], some (q.after r)⟩ := by
  cases hdrains with
  | panics hnone => cases hnone.symm.trans h
  | waits hsome _ => rw [Option.some.inj (hsome.symm.trans h)]
  | next hsome hgoes _ =>
    rw [Option.some.inj (hsome.symm.trans h), hwaits] at hgoes
    cases hgoes

theorem Drains.of_next (hdrains : Drains q c) {r : Resolution} (h : q.round = some r)
    (hgoes : r.waits = false) : ∃ c', Drains (q.after r) c' ∧ c = ⟨q :: c'.rounds, c'.final⟩ := by
  cases hdrains with
  | panics hnone => cases hnone.symm.trans h
  | waits hsome hwaits =>
    rw [Option.some.inj (hsome.symm.trans h), hgoes] at hwaits
    cases hwaits
  | next hsome _ hrest =>
    obtain rfl := Option.some.inj (hsome.symm.trans h)
    exact ⟨_, hrest, rfl⟩

variable {p : ToolCallParser}

theorem drainLoop_drains {fuel : Nat} (hfuel : p.buf.length < fuel) :
    Drains p (p.drainLoop fuel) := by
  induction fuel generalizing p with
  | zero => exact absurd hfuel (Nat.not_lt_zero _)
  | succ fuel ih =>
    rw [drainLoop]
    split
    next hpanics => exact .panics hpanics
    next r hround =>
      split
      next hwaits => exact .waits hround hwaits
      next hwaits =>
        have hwaits : r.waits = false := Bool.eq_false_iff.2 hwaits
        obtain ⟨-, hle, hpos⟩ := (round_rounds hround).bounds
        have hshort : (p.after r).buf.length < fuel := by
          have := hpos hwaits
          show (p.buf.drop r.consumedEnd).length < fuel
          rw [length_drop]
          omega
        exact .next hround hwaits (ih hshort)

/-- **The loop ends of itself**, with a round that waits or panics. -/
theorem drainInto_drains (p : ToolCallParser) : Drains p p.drainInto :=
  drainLoop_drains (Nat.lt_succ_self _)

theorem flush_of_drains {p' : ToolCallParser} {rounds : List ToolCallParser} (hbuf : p.buf ≠ [])
    (h : drainInto { p with atEos := true } = ⟨rounds, some p'⟩) :
    p.flush = some (rounds.flatMap outputs ++
      (if p'.buf.isEmpty then [] else [.text p'.buf]),
        { p' with buf := [], inThink := none, atEos := false }) := by
  have hne : p.buf.isEmpty = false := by simpa using hbuf
  rw [flush, hne, flushCourse, hne, if_neg (by simp),
    if_neg (by simp), h]
  rfl

/-! ## The invariant rule

What is said of the rounds that have been made goes along as a ghost `g`, which every round takes
a step further. -/

variable {next : ToolCallParser → Course}

omit [JsonText] in
theorem Course.andThen_of_some (h : c.final = some p) :
    c.andThen next = ⟨c.rounds ++ (next p).rounds, (next p).final⟩ := by
  rw [andThen, h]

omit [JsonText] in
theorem Course.andThen_of_none (h : c.final = none) : c.andThen next = c := by
  rw [andThen, h]

omit [JsonText] in
theorem Course.mem_andThen_left (h : q ∈ c.rounds) : q ∈ (c.andThen next).rounds := by
  cases hfinal : c.final with
  | none => rwa [andThen_of_none hfinal]
  | some p =>
    rw [andThen_of_some hfinal]
    exact mem_append_left _ h

omit [JsonText] in
theorem Course.mem_andThen_right (hfinal : c.final = some p) (h : q ∈ (next p).rounds) :
    q ∈ (c.andThen next).rounds := by
  rw [andThen_of_some hfinal]
  exact mem_append_right _ h

section
variable {G : Type} {step : G → ToolCallParser → G} {J : G → ToolCallParser → Prop}
  {C : ToolCallParser → Prop}

/-- What holds before each round of a course, and after the last of them. -/
structure Course.Holds (step : G → ToolCallParser → G) (J : G → ToolCallParser → Prop) (g : G)
    (c : Course) : Prop where
  before : ∀ done q left, c.rounds = done ++ q :: left → J (done.foldl step g) q
  final : ∀ p', c.final = some p' → J (c.rounds.foldl step g) p'

/-- An invariant: rounds from where `C` holds keep it, and so do text that arrives and the end of
the text. -/
structure Keeps (step : G → ToolCallParser → G) (J : G → ToolCallParser → Prop)
    (C : ToolCallParser → Prop) : Prop where
  round : ∀ {g q r}, J g q → C q → q.round = some r → J (step g q) (q.after r)
  arrive : ∀ {g q} (t : Text), J g q → J g { q with buf := q.buf ++ t }
  eos : ∀ {g q}, J g q → J g { q with atEos := true }

variable {p : ToolCallParser} {g : G}

theorem Drains.holds (hkeeps : Keeps step J C) {c : Course} (h : Drains p c) (hJ : J g p)
    (hC : ∀ q ∈ c.rounds, C q) : c.Holds step J g := by
  induction h generalizing g with
  | @panics p h =>
    refine ⟨fun done q left heq => ?_, fun p' hp' => nomatch hp'⟩
    obtain ⟨rfl, hq⟩ := append_eq_singleton_iff.1 heq.symm |>.resolve_right (by simp)
    obtain ⟨rfl, -⟩ := cons.inj hq
    exact hJ
  | @waits p r h hwaits =>
    refine ⟨fun done q left heq => ?_, fun p' hp' => ?_⟩
    · obtain ⟨rfl, hq⟩ := append_eq_singleton_iff.1 heq.symm |>.resolve_right (by simp)
      obtain ⟨rfl, -⟩ := cons.inj hq
      exact hJ
    · obtain rfl := Option.some.inj hp'
      exact hkeeps.round hJ (hC p mem_cons_self) h
  | @next p r c h hwaits hrest ih =>
    have hnext := ih (hkeeps.round hJ (hC p mem_cons_self) h)
      fun q hq => hC q (mem_cons_of_mem _ hq)
    refine ⟨fun done q left heq => ?_, hnext.final⟩
    cases done with
    | nil =>
      obtain ⟨rfl, -⟩ := cons.inj heq
      exact hJ
    | cons first done =>
      obtain ⟨rfl, hrounds⟩ := cons.inj heq
      exact hnext.before done q left hrounds

omit [JsonText] in
theorem Course.Holds.andThen {c : Course} {next : ToolCallParser → Course} (h : c.Holds step J g)
    (hnext : ∀ p', c.final = some p' → (next p').Holds step J (c.rounds.foldl step g)) :
    (c.andThen next).Holds step J g := by
  cases hfinal : c.final with
  | none =>
    rw [andThen_of_none hfinal]
    exact h
  | some p' =>
    have hnext := hnext p' hfinal
    rw [andThen_of_some hfinal]
    refine ⟨fun done q left heq => ?_, fun p'' hp'' => ?_⟩
    · dsimp only at heq
      rcases append_eq_append_iff.1 heq with ⟨more, rfl, hrounds⟩ | ⟨more, hrounds, hleft⟩
      · rw [foldl_append]
        exact hnext.before more q left hrounds
      cases more with
      | nil =>
        rw [append_nil] at hrounds
        rw [← hrounds]
        exact hnext.before [] q left (by simpa using hleft.symm)
      | cons q' more =>
        obtain ⟨rfl, -⟩ := cons.inj hleft
        exact h.before done q more hrounds
    · rw [foldl_append]
      exact hnext.final p'' hp''

omit [JsonText] in
/-- Nothing has been done. -/
theorem Course.Holds.none (hJ : J g p) : (Course.mk [] (some p)).Holds step J g :=
  ⟨fun _ _ _ heq => by simp at heq, fun _ hp' => Option.some.inj hp' ▸ hJ⟩

theorem Keeps.pushCourse (hkeeps : Keeps step J C) (hJ : J g p) (text : Text)
    (hC : ∀ q ∈ (p.pushCourse text).rounds, C q) : (p.pushCourse text).Holds step J g := by
  rw [ToolCallParser.pushCourse] at hC ⊢
  split
  · exact .none hJ
  next htext =>
    rw [if_neg htext] at hC
    exact (drainInto_drains _).holds hkeeps (hkeeps.arrive text hJ) hC

theorem Keeps.flushCourse (hkeeps : Keeps step J C) (hJ : J g p)
    (hC : ∀ q ∈ p.flushCourse.rounds, C q) : p.flushCourse.Holds step J g := by
  rw [ToolCallParser.flushCourse] at hC ⊢
  split
  · exact .none hJ
  next hbuf =>
    rw [if_neg hbuf] at hC
    exact (drainInto_drains _).holds hkeeps (hkeeps.eos hJ) hC

/-- **The rule for chunks.**  An invariant holds before every round, and after the last. -/
theorem Keeps.feedCourse (hkeeps : Keeps step J C) (chunks : List Text) (hJ : J g p)
    (hC : ∀ q ∈ (p.feedCourse chunks).rounds, C q) : (p.feedCourse chunks).Holds step J g := by
  induction chunks generalizing p g with
  | nil => exact .none hJ
  | cons chunk chunks ih =>
    rw [feedCourse] at hC ⊢
    have hpush := hkeeps.pushCourse hJ chunk fun q hq => hC q (Course.mem_andThen_left hq)
    refine hpush.andThen fun p' hfinal => ih (hpush.final p' hfinal) fun q hq => hC q ?_
    exact Course.mem_andThen_right hfinal hq

/-- **The rule for a text that arrives and ends.** -/
theorem Keeps.runCourse (hkeeps : Keeps step J C) {chunks : List Text} (hJ : J g p)
    (hC : ∀ q ∈ (p.runCourse chunks).rounds, C q) : (p.runCourse chunks).Holds step J g := by
  have hfeed := hkeeps.feedCourse chunks hJ fun q hq => hC q (Course.mem_andThen_left hq)
  refine hfeed.andThen fun p' hfinal => hkeeps.flushCourse (hfeed.final p' hfinal) fun q hq => ?_
  exact hC q (Course.mem_andThen_right hfinal hq)

end

/-! ## What a run puts out -/

omit [JsonText] in
theorem Course.andThen_assoc (c : Course) (f g : ToolCallParser → Course) :
    (c.andThen f).andThen g = c.andThen fun p => (f p).andThen g := by
  cases hfinal : c.final with
  | none => rw [andThen_of_none hfinal, andThen_of_none hfinal, andThen_of_none hfinal]
  | some p =>
    have hsides : (c.andThen f).final = (f p).final := by rw [andThen_of_some hfinal]
    rw [show c.andThen (fun p => (f p).andThen g) = _ from andThen_of_some hfinal]
    cases hnext : (f p).final with
    | none => rw [andThen_of_none (hsides.trans hnext), andThen_of_some hfinal,
      andThen_of_none hnext]
    | some p' =>
      rw [andThen_of_some (hsides.trans hnext), andThen_of_some hfinal, andThen_of_some hnext]
      simp

theorem runCourse_cons (p : ToolCallParser) (chunk : Text) (chunks : List Text) :
    p.runCourse (chunk :: chunks) = (p.pushCourse chunk).andThen fun p' => p'.runCourse chunks := by
  rw [runCourse, feedCourse, Course.andThen_assoc]
  rfl

theorem runCourse_nil (p : ToolCallParser) : p.runCourse [] = p.flushCourse := by
  rw [runCourse, feedCourse, Course.andThen_of_some rfl]
  rfl

/-- What is left in the buffer is put out at the end. -/
theorem run_eq (p : ToolCallParser) (chunks : List Text) :
    p.run chunks = (p.runCourse chunks).final.map fun p' =>
      (p.runCourse chunks).outputs ++ if p'.buf.isEmpty then [] else [.text p'.buf] := by
  induction chunks generalizing p with
  | nil =>
    rw [ToolCallParser.run, runCourse_nil, ToolCallParser.flush]
    by_cases hbuf : p.buf.isEmpty = true
    · rw [if_pos hbuf, ToolCallParser.flushCourse, if_pos hbuf]
      simp [Course.outputs, isEmpty_iff.1 hbuf]
    · rw [if_neg hbuf, Option.map_map]
      rfl
  | cons chunk chunks ih =>
    rw [ToolCallParser.run, runCourse_cons, ToolCallParser.push]
    cases hfinal : (p.pushCourse chunk).final with
    | none => simp [Course.andThen_of_none hfinal, hfinal]
    | some p' =>
      rw [Option.map_some, Option.bind_some, Course.andThen_of_some hfinal]
      dsimp only
      rw [ih, Option.map_map]
      simp [Course.outputs, Function.comp_def]

end

end Backend
end Gen2
