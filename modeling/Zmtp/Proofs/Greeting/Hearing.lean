import Zmtp.Proofs.Engine.Greeting

namespace Zmtp

namespace Greeting

variable {bs input : Bytes} {g g' : Greeting} {verdict : Option Negotiated} {rest : Bytes}

/-- The first byte is the one that a greeting begins with, and the tenth is odd. -/
def Shown (bs : Bytes) : Prop :=
  bs[0]? = some 0xff ∧ ∃ mark, bs[9]? = some mark ∧ mark.toNat % 2 = 1

/-- The first byte is not the one that a greeting begins with, or the tenth is even. -/
def Refuted (bs : Bytes) : Prop :=
  ∃ first, bs[0]? = some first ∧
    (first ≠ 0xff ∨ ∃ mark, bs[9]? = some mark ∧ mark.toNat % 2 = 0)

theorem and_one_eq_zero_iff (b : UInt8) : b &&& 0x01 = 0 ↔ b.toNat % 2 = 0 := by
  rw [← UInt8.toNat_inj, UInt8.toNat_and]
  change b.toNat &&& 1 = 0 ↔ _
  rw [Nat.and_one_is_mod]

theorem and_one_ne_zero_iff (b : UInt8) : b &&& 0x01 ≠ 0 ↔ b.toNat % 2 = 1 := by
  rw [ne_eq, and_one_eq_zero_iff]
  omega

theorem looksVersioned_iff : looksVersioned bs = true ↔ Shown bs := by
  cases bs with
  | nil => simp [looksVersioned, Shown]
  | cons first rest =>
    rw [Shown, List.getElem?_cons_zero, List.getElem?_cons_succ]
    by_cases hf : first = 0xff
    · subst hf
      rw [looksVersioned]
      cases rest[8]? with
      | none => simp
      | some mark => simp only [bne_iff_ne, and_one_ne_zero_iff, Option.some.injEq]; simp
    · simp [looksVersioned, hf]

instance (bs : Bytes) : Decidable (Shown bs) := decidable_of_iff _ looksVersioned_iff

theorem classify_versionless_iff {prebuffered : Bytes} :
    classify bs = some (.versionless prebuffered) ↔ prebuffered = bs ∧ Refuted bs := by
  cases bs with
  | nil => simp [classify, Refuted]
  | cons first rest =>
    rw [classify, Refuted, List.getElem?_cons_zero, List.getElem?_cons_succ]
    by_cases hf : first = 0xff
    · subst hf
      cases rest[8]? with
      | none => simp
      | some mark =>
        by_cases hm : mark &&& 0x01 = 0
        · have hm' := (and_one_eq_zero_iff mark).1 hm
          simp [hm, hm', eq_comm]
        · have hm' := (and_one_ne_zero_iff mark).1 hm
          cases rest[9]? <;> cases rest[10]? <;> simp [hm, hm']
    · simp [hf, eq_comm]

theorem classify_versioned_iff {revision : Revision} {role : UInt8} :
    classify bs = some (.versioned revision role) ↔
      Shown bs ∧ (∃ b, bs[10]? = some b ∧ revision = if b = 0 then .v1 else .v2) ∧
        bs[11]? = some role := by
  cases bs with
  | nil => simp [classify, Shown]
  | cons first rest =>
    rw [classify, Shown, List.getElem?_cons_zero]
    simp only [List.getElem?_cons_succ]
    by_cases hf : first = 0xff
    · subst hf
      cases rest[8]? with
      | none => simp
      | some mark =>
        by_cases hm : mark &&& 0x01 = 0
        · have hm' := (and_one_eq_zero_iff mark).1 hm
          simp [hm, hm']
        · have hm' := (and_one_ne_zero_iff mark).1 hm
          cases rest[9]? <;> cases rest[10]? <;> simp [hm, hm', Revision.ofByte, eq_comm]
    · simp [hf]

/-- A greeting takes what it has room for, and decides by all that it has. -/
theorem feed_spec (h : g.feed input = (g', verdict, rest)) :
    g'.received.bytes = g.received.bytes ++ input.take g.room ∧
      g'.received.size = g.received.size ∧ verdict = classify g'.received.bytes ∧
      g'.done = (g.done || verdict.isSome) ∧ g'.role = g.role ∧ rest = input.drop g.room ∧
      g'.tail = if g.tail = .held ∧ looksVersioned g'.received.bytes then .due else g.tail := by
  have hle : (input.take g.room).length ≤ g.received.room := List.length_take_le ..
  have hbytes : ((g.deposit (input.take g.room)).received.count (input.take g.room).length).bytes =
      g.received.bytes ++ input.take g.room := by
    change ((g.received.deposit (input.take g.room)).count (input.take g.room).length).bytes = _
    rw [Buffer.bytes_count, Buffer.bytes_deposit, Buffer.room_deposit, Nat.min_eq_left hle,
      Buffer.peek_deposit hle]
  cases h
  refine ⟨hbytes, ?_, rfl, rfl, rfl, rfl, rfl⟩
  exact Buffer.size_count ..

theorem room_eq (h : g.received.size = size) : g.room = size - g.received.bytes.length := by
  rw [← h, Buffer.size, Buffer.bytes, List.length_reverse, Nat.add_sub_cancel_left, room]

end Greeting

/-- A greeting that hears a peer piece by piece, and is asked for its tail in between. -/
structure Hearing where
  greeting : Greeting
  verdict : Option Negotiated
  /-- The bytes of the peer that the greeting took. -/
  taken : Bytes
  /-- The bytes of the peer that it did not take. -/
  unread : Bytes
  /-- What came of asking for the tail, oldest first. -/
  answers : List (Option Bytes)

namespace Hearing

open Greeting

inductive Move where
  | feed (piece : Bytes)
  | ask

def Move.bytes : Move → Bytes
  | feed piece => piece
  | ask => []

/-- All bytes of the peer. -/
def fed (ms : List Move) : Bytes := ms.flatMap Move.bytes

def new (s : Settings) : Hearing := ⟨.new s, none, [], [], []⟩

/-- A greeting that is done is fed no more. -/
def play (h : Hearing) : Move → Hearing
  | .feed piece =>
    if h.greeting.done then { h with unread := h.unread ++ piece }
    else
      let (greeting, verdict, rest) := h.greeting.feed piece
      { h with
        greeting, verdict
        taken := h.taken ++ piece.take (piece.length - rest.length)
        unread := h.unread ++ rest }
  | .ask =>
    let (tail, greeting) := h.greeting.takeTail
    { h with greeting, answers := h.answers ++ [tail] }

def run (h : Hearing) (ms : List Move) : Hearing := ms.foldl play h

/-- How a greeting stands when these bytes of a peer came in. -/
structure Sound (s : Settings) (heard : Bytes) (h : Hearing) : Prop where
  bytes : h.greeting.received.bytes = h.taken
  size : h.greeting.received.size = Greeting.size
  role : h.greeting.role = s.role
  heard : h.taken ++ h.unread = heard
  verdict : h.verdict = classify h.taken
  done : h.greeting.done = h.verdict.isSome
  unread : h.verdict = none → h.unread = []
  tail : h.greeting.tail =
    if looksVersioned h.taken then (if h.answers.filterMap id = [] then .due else .sent) else .held
  answers : h.answers.filterMap id = [] ∨
    looksVersioned h.taken = true ∧ h.answers.filterMap id = [(Greeting.new s).tailBytes]

variable {s : Settings} {h : Hearing} {heard : Bytes}

theorem sound_new (s : Settings) : (new s).Sound s [] where
  bytes := rfl
  size := rfl
  role := rfl
  heard := rfl
  verdict := rfl
  done := rfl
  unread _ := rfl
  tail := rfl
  answers := .inl rfl

theorem Sound.tailBytes (h' : h.Sound s heard) :
    h.greeting.tailBytes = (Greeting.new s).tailBytes := by
  rw [Greeting.tailBytes, h'.role, Greeting.tailBytes]
  rfl

theorem Sound.length_taken (h' : h.Sound s heard) : h.taken.length ≤ Greeting.size := by
  rw [← h'.bytes, ← h'.size, Buffer.bytes, Buffer.size, List.length_reverse]
  exact Nat.le_add_right ..

theorem Sound.classify_heard (h' : h.Sound s heard) :
    classify heard = h.verdict.map (Negotiated.later · h.unread) := by
  rw [← h'.heard]
  cases hv : h.verdict with
  | none =>
    rw [h'.unread hv, List.append_nil, ← h'.verdict, hv]
    rfl
  | some n => exact classify_append (h'.verdict.symm.trans hv) h.unread

theorem Sound.shown_iff (h' : h.Sound s heard) : looksVersioned h.taken = true ↔ Shown heard := by
  rw [← looksVersioned_iff]
  constructor
  · intro hl
    rw [← h'.heard]
    exact looksVersioned_append hl h.unread
  · intro hl
    cases hv : h.verdict with
    | none => rwa [← h'.heard, h'.unread hv, List.append_nil] at hl
    | some n =>
      cases n with
      | versionless p =>
        have hheard := h'.classify_heard
        rw [hv] at hheard
        rw [looksVersioned_of_versionless hheard] at hl
        cases hl
      | versioned revision role =>
        exact (looksVersioned_of_versioned (h'.verdict.symm.trans hv)).1

theorem play_feed_of_done (hd : h.greeting.done = true) (piece : Bytes) :
    h.play (.feed piece) = { h with unread := h.unread ++ piece } := by
  rw [play, if_pos hd]

theorem play_feed {g : Greeting} {verdict : Option Negotiated} {piece rest : Bytes}
    (hd : h.greeting.done = false) (hf : h.greeting.feed piece = (g, verdict, rest)) :
    h.play (.feed piece) =
      { h with
        greeting := g
        verdict
        taken := h.taken ++ piece.take (piece.length - rest.length)
        unread := h.unread ++ rest } := by
  rw [play, hd, if_neg Bool.false_ne_true, hf]

theorem Sound.tail_append (h' : h.Sound s heard) {more : Bytes} :
    (if h.greeting.tail = .held ∧ looksVersioned (h.taken ++ more) then TailState.due
      else h.greeting.tail) =
      if looksVersioned (h.taken ++ more) then
        (if h.answers.filterMap id = [] then .due else .sent)
      else .held := by
  have htail := h'.tail
  cases hl : looksVersioned h.taken with
  | true =>
    rw [hl, if_pos rfl] at htail
    have hne : h.greeting.tail ≠ .held := by
      rw [htail]
      split <;> nofun
    rw [looksVersioned_append hl, if_neg (fun hh => hne hh.1), if_pos rfl, htail]
  | false =>
    rw [hl, if_neg Bool.false_ne_true] at htail
    rcases h'.answers with ha | ⟨hl', -⟩
    · simp only [htail, ha, true_and, if_true]
    · cases hl.symm.trans hl'

theorem Sound.feed_of_done (h' : h.Sound s heard) (hd : h.greeting.done = true) (piece : Bytes) :
    (h.play (.feed piece)).Sound s (heard ++ piece) := by
  rw [play_feed_of_done hd]
  refine { h' with heard := ?_, unread := ?_ }
  · rw [← h'.heard, List.append_assoc]
  · intro hn
    have hsome := h'.done
    rw [hd, show h.verdict = none from hn] at hsome
    cases hsome

theorem Sound.feed (h' : h.Sound s heard) (hd : h.greeting.done = false) (piece : Bytes) :
    (h.play (.feed piece)).Sound s (heard ++ piece) := by
  have hv : h.verdict = none := by
    have hsome := h'.done
    rw [hd] at hsome
    exact Option.isSome_eq_false_iff.1 hsome.symm |> Option.isNone_iff_eq_none.1
  have hunread := h'.unread hv
  have hlt := length_lt_of_undecided (h'.verdict.symm.trans hv)
  have hroom : h.greeting.room = Greeting.size - h.taken.length := by
    rw [room_eq h'.size, h'.bytes]
  cases hf : h.greeting.feed piece with
  | mk g vr =>
    obtain ⟨verdict, rest⟩ := vr
    obtain ⟨hbytes, hsize, hverdict, hdone, hrole, hrest, htail⟩ := feed_spec hf
    rw [h'.bytes] at hbytes
    have htaken : piece.take (piece.length - rest.length) = piece.take h.greeting.room := by
      rw [hrest, List.length_drop, List.take_eq_take_iff]
      omega
    rw [play_feed hd hf, htaken]
    constructor
    case bytes => exact hbytes
    case size => exact hsize.trans h'.size
    case role => exact hrole.trans h'.role
    case heard =>
      rw [← h'.heard, hunread, hrest]
      simp
    case verdict => rw [hverdict, hbytes]
    case done =>
      rw [hdone, hd]
      rfl
    case unread =>
      intro hn
      have hn' : classify (h.taken ++ piece.take h.greeting.room) = none := by
        rw [← hbytes, ← hverdict]
        exact hn
      have hlt' := length_lt_of_undecided hn'
      rw [List.length_append, List.length_take] at hlt'
      rw [hunread, hrest, List.nil_append, List.drop_eq_nil_iff]
      omega
    case tail =>
      rw [htail, hbytes]
      exact h'.tail_append
    case answers =>
      rcases h'.answers with ha | ⟨hl, ha⟩
      · exact .inl ha
      · exact .inr ⟨looksVersioned_append hl _, ha⟩

/-- The next answer is the tail if the peer has shown that it knows greetings, and no answer before
was the tail. -/
theorem Sound.answer (h' : h.Sound s heard) :
    h.greeting.takeTail.1 =
      if Shown heard ∧ h.answers.filterMap id = [] then some (Greeting.new s).tailBytes
      else none := by
  have htail := h'.tail
  have hshown := h'.shown_iff
  rw [takeTail, ← h'.tailBytes]
  cases hl : looksVersioned h.taken with
  | false =>
    rw [hl, if_neg Bool.false_ne_true] at htail
    rw [hl] at hshown
    simp [htail, ← hshown]
  | true =>
    rw [hl, if_pos rfl] at htail
    have hs : Shown heard := hshown.1 hl
    by_cases ha : h.answers.filterMap id = []
    · rw [if_pos ha] at htail
      simp only [htail, ha, hs, and_self, if_true]
    · rw [if_neg ha] at htail
      simp only [htail, ha, and_false, if_false, reduceCtorEq]

theorem Sound.ask (h' : h.Sound s heard) : (h.play .ask).Sound s heard := by
  have hanswer := h'.answer
  have htail := h'.tail
  have hgiven := h'.answers
  have htailBytes := h'.tailBytes
  rw [play]
  rw [takeTail] at hanswer ⊢
  by_cases hdue : h.greeting.tail = .due
  · rw [if_pos hdue] at hanswer ⊢
    split at hanswer
    · next hcond =>
      obtain ⟨hs, ha⟩ := hcond
      have hl := h'.shown_iff.2 hs
      refine { h' with tail := ?_, answers := .inr ⟨hl, ?_⟩ }
      · simp [hl]
      · rw [List.filterMap_append, ha, htailBytes]
        rfl
    · cases hanswer
  · rw [if_neg hdue]
    refine { h' with tail := ?_, answers := ?_ }
    · simpa [List.filterMap_append] using htail
    · simpa [List.filterMap_append] using hgiven

theorem Sound.play (h' : h.Sound s heard) (m : Move) : (h.play m).Sound s (heard ++ m.bytes) := by
  cases m with
  | feed piece =>
    cases hd : h.greeting.done with
    | true => exact h'.feed_of_done hd piece
    | false => exact h'.feed hd piece
  | ask =>
    rw [Move.bytes, List.append_nil]
    exact h'.ask

theorem Sound.run (h' : h.Sound s heard) (ms : List Move) :
    (h.run ms).Sound s (heard ++ fed ms) := by
  induction ms generalizing h heard with
  | nil =>
    rw [fed, List.flatMap_nil, List.append_nil]
    exact h'
  | cons m ms ih =>
    rw [fed, List.flatMap_cons, ← List.append_assoc]
    exact ih (h'.play m)

theorem sound_heard (s : Settings) (ms : List Move) : ((new s).run ms).Sound s (fed ms) :=
  (sound_new s).run ms

theorem Sound.versionless_iff (h' : h.Sound s heard) {prebuffered : Bytes} :
    h.verdict = some (.versionless prebuffered) ↔ Refuted heard ∧ prebuffered = h.taken := by
  have hheard := h'.classify_heard
  constructor
  · intro hv
    rw [hv] at hheard
    exact ⟨(classify_versionless_iff.1 hheard).2,
      (classify_versionless_iff.1 (h'.verdict.symm.trans hv)).1⟩
  · rintro ⟨hr, rfl⟩
    rw [classify_versionless_iff.2 ⟨rfl, hr⟩] at hheard
    obtain ⟨n, hv, hn⟩ := Option.map_eq_some_iff.1 hheard.symm
    cases n with
    | versionless p => rw [hv, (classify_versionless_iff.1 (h'.verdict.symm.trans hv)).1]
    | versioned revision role => cases hn

theorem Sound.versioned_iff (h' : h.Sound s heard) {revision : Revision} {role : UInt8} :
    h.verdict = some (.versioned revision role) ↔
      Shown heard ∧ (∃ b, heard[10]? = some b ∧ revision = if b = 0 then .v1 else .v2) ∧
        heard[11]? = some role := by
  rw [← classify_versioned_iff, h'.classify_heard]
  cases h.verdict with
  | none => simp
  | some n => cases n <;> simp [Negotiated.later]

theorem Sound.answers_ask (h' : h.Sound s heard) :
    (h.play .ask).answers.filterMap id =
      if Shown heard then [(Greeting.new s).tailBytes] else [] := by
  have hasked : (h.play .ask).answers.filterMap id =
      h.answers.filterMap id ++ [h.greeting.takeTail.1].filterMap id :=
    List.filterMap_append
  rw [hasked, h'.answer]
  rcases h'.answers with ha | ⟨hl, ha⟩
  · rw [ha]
    by_cases hs : Shown heard <;> simp [hs]
  · rw [ha, if_pos (h'.shown_iff.1 hl)]
    simp

/-- What a greeting decides, what it takes and when it answers depends on what the peer said, and not
on the pieces in which that came in or on when the greeting was asked for its tail. -/
theorem hearing_depends_on_bytes (s : Settings) (ms : List Move) :
    let h := (new s).run ms
    (∀ p, h.verdict = some (.versionless p) ↔ Refuted (fed ms) ∧ p = h.taken) ∧
      (∀ revision role, h.verdict = some (.versioned revision role) ↔
        Shown (fed ms) ∧
          (∃ b, (fed ms)[10]? = some b ∧ revision = if b = 0 then .v1 else .v2) ∧
          (fed ms)[11]? = some role) ∧
      h.greeting.done = h.verdict.isSome ∧
      h.taken ++ h.unread = fed ms ∧ h.taken.length ≤ 12 ∧
      (h.greeting.tail = .held ↔ ¬ Shown (fed ms)) ∧
      h.greeting.takeTail.1 =
        (if Shown (fed ms) ∧ h.answers.filterMap id = [] then some (Greeting.new s).tailBytes
          else none) ∧
      (h.play .ask).answers.filterMap id =
        (if Shown (fed ms) then [(Greeting.new s).tailBytes] else []) ∧
      ((∃ p, h.verdict = some (.versionless p)) → ¬ Shown (fed ms)) ∧
      ((∃ revision role, h.verdict = some (.versioned revision role)) → Shown (fed ms)) ∧
      ∀ g : Greeting, g.signature ++ g.tailBytes <+: fed ms →
        h.verdict = some (.versioned .v2 g.role.byte) := by
  intro h
  have h' : h.Sound s (fed ms) := sound_heard s ms
  have hshown := h'.shown_iff
  refine ⟨fun p => h'.versionless_iff, fun revision role => h'.versioned_iff, h'.done, h'.heard,
    h'.length_taken, ?held, h'.answer, h'.answers_ask, ?versionless, ?versioned, ?greeted⟩
  case held =>
    rw [h'.tail, ← hshown]
    split
    · split <;> simp_all
    · simp_all
  case versionless =>
    rintro ⟨p, hp⟩ hs
    rw [← hshown, looksVersioned_of_versionless (h'.verdict.symm.trans hp)] at hs
    cases hs
  case versioned =>
    rintro ⟨revision, role, hv⟩
    exact (h'.versioned_iff.1 hv).1
  case greeted =>
    rintro g ⟨more, hmore⟩
    rw [h'.versioned_iff, ← classify_versioned_iff, ← hmore]
    exact classify_greeting g more

/-- A peer that is heard in three pieces and asked about in between: its mark comes in with the
second, and its role with the third, which has a byte too many. -/
theorem hearing_depends_on_bytes_threePieces :
    let s : Settings := { role := .dealer, identity := [0x61] }
    let g : Greeting := .new { role := .router }
    let ms : List Move := [.feed (g.signature.take 3), .ask, .feed (g.signature.drop 3), .ask, .ask,
      .feed (g.tailBytes ++ [0x2a])]
    g.signature ++ g.tailBytes <+: fed ms ∧
      ((new s).run ms).verdict = some (.versioned .v2 Role.router.byte) ∧
      ((new s).run ms).answers = [none, some (Greeting.new s).tailBytes, none] ∧
      ((new s).run ms).unread = [0x2a] := by
  intro s g ms
  have hg : g.signature ++ g.tailBytes <+: fed ms := by decide
  obtain ⟨-, -, -, -, -, -, -, -, -, -, hgreeted⟩ := hearing_depends_on_bytes s ms
  exact ⟨hg, hgreeted g hg, by decide, by decide⟩

end Hearing

end Zmtp
