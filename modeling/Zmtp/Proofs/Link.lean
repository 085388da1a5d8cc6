import Zmtp.Link

namespace Zmtp

namespace Side

theorem ne_other (s : Side) : s ≠ s.other := by cases s <;> nofun

theorem eq_or_other (s s' : Side) : s' = s ∨ s' = s.other := by
  cases s with
  | left => cases s' with
    | left => exact .inl rfl
    | right => exact .inr rfl
  | right => cases s' with
    | left => exact .inr rfl
    | right => exact .inl rfl

end Side

/-- What the owner of an end of a link does with it. -/
inductive LinkUse where
  | write (part : Part)
  | flush
  | rollback
  | read
  | drop
  deriving DecidableEq

inductive LinkAnswer where
  | done
  | accepted
  /-- The part is handed back. -/
  | refused (part : Part)
  | given (part : Option Part)
  deriving DecidableEq

structure LinkCall where
  side : Side
  use : LinkUse
  deriving DecidableEq

structure LinkEvent extends LinkCall where
  answer : LinkAnswer
  deriving DecidableEq

namespace Link

def perform (l : Link) (s : Side) : LinkUse → LinkAnswer × Link
  | .write p =>
    match l.write? s p with
    | some l => (.accepted, l)
    | none => (.refused p, l)
  | .flush => (.done, l.flush s)
  | .rollback => (.done, l.rollback s)
  | .read => let (p, l) := l.read s; (.given p, l)
  | .drop => (.done, l.drop s)

end Link

/-- One direction of a link, from the end that writes to the end that reads. -/
structure Lane where
  highWater : Nat
  /-- The end that writes is alive. -/
  writer : Bool
  /-- The end that reads is alive. -/
  reader : Bool
  staged : List Part
  unread : List Part
  deriving DecidableEq

namespace Lane

/-- A part may be staged. -/
def accepts (v : Lane) : Bool :=
  v.reader && (v.highWater == 0 || decide (v.unread.length + v.staged.length < v.highWater))

/-- What a use of the end that writes does to the direction. -/
def send (v : Lane) : LinkUse → Lane
  | .write p => if v.accepts then { v with staged := v.staged ++ [p] } else v
  | .flush =>
    { v with staged := [], unread := if v.reader then v.unread ++ v.staged else v.unread }
  | .rollback => { v with staged := [] }
  | .read => v
  | .drop => { v with writer := false, staged := [] }

/-- What a use of the end that reads does to the direction. -/
def take (v : Lane) : LinkUse → Lane
  | .write _ => v
  | .flush => v
  | .rollback => v
  | .read => { v with unread := v.unread.tail }
  | .drop => { v with reader := false, unread := [] }

/-- What a use answers that has to do with the direction. -/
def answer (v : Lane) : LinkUse → LinkAnswer
  | .write p => if v.accepts then .accepted else .refused p
  | .read => .given v.unread.head?
  | .flush => .done
  | .rollback => .done
  | .drop => .done

end Lane

namespace Link

variable {l : Link} {s : Side} {p : Part}

/-- The direction that leaves an end. -/
def lane (l : Link) (s : Side) : Lane where
  highWater := l.highWater
  writer := (l.get s).live
  reader := (l.get s.other).live
  staged := (l.get s).staged
  unread := (l.get s.other).inbox

theorem canWrite_eq_accepts (l : Link) (s : Side) : l.canWrite s = (l.lane s).accepts := by
  rw [canWrite, peerGone, Bool.not_not]
  rfl

theorem write?_of_accepts (h : (l.lane s).accepts = true) :
    l.write? s p = some (l.update s fun e => { e with staged := e.staged ++ [p] }) := by
  rw [write?, canWrite_eq_accepts, if_pos h]

theorem write?_of_not_accepts (h : (l.lane s).accepts = false) : l.write? s p = none := by
  rw [write?, canWrite_eq_accepts, h]
  rfl

theorem perform_write (l : Link) (s : Side) (p : Part) : l.perform s (.write p) =
    if (l.lane s).accepts then
      (.accepted, l.update s fun e => { e with staged := e.staged ++ [p] })
    else (.refused p, l) := by
  rw [perform]
  cases h : (l.lane s).accepts with
  | true => rw [write?_of_accepts h]; rfl
  | false => rw [write?_of_not_accepts h]; rfl

theorem read_eq (l : Link) (s : Side) : l.read s =
    ((l.get s).inbox.head?, l.update s fun e => { e with inbox := e.inbox.tail }) := by
  obtain ⟨highWater, ⟨_, _, leftInbox, _, _⟩, ⟨_, _, rightInbox, _, _⟩⟩ := l
  cases s with
  | left => cases leftInbox <;> rfl
  | right => cases rightInbox <;> rfl

theorem lane_update (l : Link) (s : Side) (f : LinkEnd → LinkEnd) : (l.update s f).lane s =
    { l.lane s with writer := (f (l.get s)).live, staged := (f (l.get s)).staged } := by
  cases s <;> rfl

theorem lane_update_other (l : Link) (s : Side) (f : LinkEnd → LinkEnd) :
    (l.update s.other f).lane s =
      { l.lane s with
        reader := (f (l.get s.other)).live
        unread := (f (l.get s.other)).inbox } := by
  cases s <;> rfl

theorem lane_rollback (l : Link) (s : Side) :
    (l.rollback s).lane s = { l.lane s with staged := [] } := lane_update ..

theorem flush_of_reader (h : (l.lane s).reader = true) : l.flush s =
    (l.rollback s).update s.other fun e => { e with inbox := e.inbox ++ (l.get s).staged } := by
  have hgone : (l.rollback s).peerGone s = false := by
    change (!((l.rollback s).lane s).reader) = false
    rw [lane_rollback, h]
    rfl
  simp only [flush, hgone, Bool.false_eq_true, if_false]

theorem flush_of_no_reader (h : (l.lane s).reader = false) : l.flush s = l.rollback s := by
  have hgone : (l.rollback s).peerGone s = true := by
    change (!((l.rollback s).lane s).reader) = true
    rw [lane_rollback, h]
    rfl
  simp only [flush, hgone, if_true]

theorem lane_perform (l : Link) (s : Side) (u : LinkUse) :
    (l.perform s u).2.lane s = (l.lane s).send u := by
  cases u with
  | write p =>
    rw [perform_write, Lane.send]
    split
    · exact lane_update ..
    · rfl
  | flush =>
    rw [perform, Lane.send]
    by_cases hr : (l.lane s).reader = true
    · rw [if_pos hr, flush_of_reader hr, lane_update_other, lane_rollback]
      cases s <;> rfl
    · rw [if_neg hr, flush_of_no_reader (eq_false_of_ne_true hr), lane_rollback]
  | rollback => exact lane_update ..
  | read =>
    rw [perform, read_eq, Lane.send]
    exact lane_update ..
  | drop => exact lane_update ..

theorem lane_perform_other (l : Link) (s : Side) (u : LinkUse) :
    (l.perform s.other u).2.lane s = (l.lane s).take u := by
  cases u with
  | write p =>
    rw [perform_write, Lane.take]
    split
    · exact lane_update_other ..
    · rfl
  | flush =>
    rw [perform, Lane.take]
    by_cases hr : (l.lane s.other).reader = true
    · rw [flush_of_reader hr]
      cases s <;> rfl
    · rw [flush_of_no_reader (eq_false_of_ne_true hr)]
      exact lane_update_other ..
  | rollback => exact lane_update_other ..
  | read =>
    rw [perform, read_eq, Lane.take]
    exact lane_update_other ..
  | drop => exact lane_update_other ..

theorem answer_write (l : Link) (s : Side) (p : Part) :
    (l.perform s (.write p)).1 = (l.lane s).answer (.write p) := by
  rw [perform_write, Lane.answer]
  split <;> rfl

theorem answer_read (l : Link) (s : Side) :
    (l.perform s.other .read).1 = (l.lane s).answer .read := by
  rw [perform, read_eq]
  rfl

theorem highWater_perform (l : Link) (s : Side) (u : LinkUse) :
    (l.perform s u).2.highWater = l.highWater := by
  have h : (l.perform s u).2.highWater = ((l.lane s).send u).highWater :=
    congrArg Lane.highWater (lane_perform l s u)
  rw [h]
  cases u with
  | write p =>
    rw [Lane.send]
    split <;> rfl
  | flush => rfl
  | rollback => rfl
  | read => rfl
  | drop => rfl

end Link

namespace LinkCall

/-- A call has to do with the direction that leaves an end. Giving up an end ends both. -/
def concerns (c : LinkCall) (s : Side) : Bool :=
  match c.use with
  | .write _ => c.side = s
  | .flush => c.side = s
  | .rollback => c.side = s
  | .read => c.side = s.other
  | .drop => true

theorem concerns_iff (c : LinkCall) (s : Side) : c.concerns s = true ↔
    (c.side = s ∧ c.use ≠ .read) ∨ (c.side = s.other ∧ (c.use = .read ∨ c.use = .drop)) := by
  obtain ⟨side, use⟩ := c
  cases side <;> cases s <;> cases use <;> simp [concerns, Side.other]

end LinkCall

namespace Link

variable {l l' : Link} {s : Side} {c : LinkCall}

theorem lane_perform_of_not_concerns (h : c.concerns s = false) :
    (l.perform c.side c.use).2.lane s = l.lane s := by
  obtain ⟨side, use⟩ := c
  have hnot := mt (LinkCall.concerns_iff _ s).2 (ne_true_of_eq_false h)
  obtain rfl | rfl := s.eq_or_other side
  · have huse : use = .read := Decidable.not_not.1 fun hread => hnot (.inl ⟨rfl, hread⟩)
    rw [huse]
    exact lane_perform ..
  · rw [lane_perform_other]
    cases use with
    | write p => rfl
    | flush => rfl
    | rollback => rfl
    | read => exact absurd (.inr ⟨rfl, .inl rfl⟩) hnot
    | drop => exact absurd (.inr ⟨rfl, .inr rfl⟩) hnot

/-- What a call that concerns a direction answers and does to it is told by the direction. -/
theorem perform_congr (hc : c.concerns s = true) (h : l.lane s = l'.lane s) :
    (l.perform c.side c.use).1 = (l'.perform c.side c.use).1 ∧
      (l.perform c.side c.use).2.lane s = (l'.perform c.side c.use).2.lane s := by
  obtain ⟨side, use⟩ := c
  obtain ⟨rfl, huse⟩ | ⟨rfl, huse⟩ := (LinkCall.concerns_iff _ s).1 hc
  · refine ⟨?_, by rw [lane_perform, lane_perform, h]⟩
    cases use with
    | write p => rw [answer_write, answer_write, h]
    | flush => rfl
    | rollback => rfl
    | read => exact absurd rfl huse
    | drop => rfl
  · refine ⟨?_, by rw [lane_perform_other, lane_perform_other, h]⟩
    obtain rfl | rfl := huse
    · rw [answer_read, answer_read, h]
    · rfl

end Link

/-- What becomes of the parts that are staged. -/
inductive Fate where
  | flushed
  | withdrawn
  deriving DecidableEq

namespace LinkEvent

/-- What becomes of the parts that are staged at an end. -/
def settles (e : LinkEvent) (s : Side) : Option Fate :=
  if e.side = s then
    match e.use with
    | .flush => some .flushed
    | .rollback => some .withdrawn
    | .drop => some .withdrawn
    | .write _ => none
    | .read => none
  else none

/-- The part that an end got accepted. -/
def accepted (e : LinkEvent) (s : Side) : Option Part :=
  if e.side = s then
    match e.use, e.answer with
    | .write p, .accepted => some p
    | _, _ => none
  else none

/-- The part that an end was given. -/
def given (e : LinkEvent) (s : Side) : Option Part :=
  if e.side = s then
    match e.use, e.answer with
    | .read, .given p => p
    | _, _ => none
  else none

end LinkEvent

/-- A link, and what was done with its ends, oldest first. -/
structure Traffic where
  link : Link
  events : List LinkEvent

namespace Traffic

def start (first : PipeId) (highWater : Nat) : Traffic := ⟨.new first highWater, []⟩

/-- An end that was given up is not used any more. -/
def play (t : Traffic) (c : LinkCall) : Traffic :=
  if (t.link.get c.side).live then
    ⟨(t.link.perform c.side c.use).2, t.events ++ [⟨c, (t.link.perform c.side c.use).1⟩]⟩
  else t

def run (t : Traffic) (cs : List LinkCall) : Traffic := cs.foldl play t

/-- An end was not given up. -/
def Alive (s : Side) (es : List LinkEvent) : Prop := ∀ e ∈ es, ¬(e.side = s ∧ e.use = .drop)

/-- What becomes of the parts that are staged at an end, unless they stay so. -/
def fate (s : Side) (es : List LinkEvent) : Option Fate := es.findSome? (·.settles s)

/-- The parts that an end got accepted and that met a fate or none, in order. -/
def written (s : Side) (f : Option Fate) : List LinkEvent → List Part
  | [] => []
  | e :: es => (if fate s es = f then (e.accepted s).toList else []) ++ written s f es

/-- What an end flushed: the parts that it got accepted and did not take back. -/
def flushed (s : Side) (es : List LinkEvent) : List Part := written s (some .flushed) es

def staged (s : Side) (es : List LinkEvent) : List Part := written s none es

/-- What an end was given. -/
def read (s : Side) (es : List LinkEvent) : List Part := es.filterMap (·.given s)

variable {s : Side} {f : Option Fate} {g : Fate} {e : LinkEvent} {es : List LinkEvent}

theorem fate_append (s : Side) (es : List LinkEvent) (e : LinkEvent) :
    fate s (es ++ [e]) = (fate s es).or (e.settles s) := by
  rw [fate, List.findSome?_append, List.findSome?_singleton]
  rfl

theorem written_cons (s : Side) (f : Option Fate) (e : LinkEvent) (es : List LinkEvent) :
    written s f (e :: es) =
      (if fate s es = f then (e.accepted s).toList else []) ++ written s f es := rfl

theorem written_of_undecided (h : fate s es = none) : written s (some g) es = [] := by
  induction es with
  | nil => rfl
  | cons e es ih =>
    have hes : fate s es = none :=
      List.findSome?_eq_none_iff.2 fun d hd =>
        List.findSome?_eq_none_iff.1 h d (List.mem_cons_of_mem e hd)
    rw [written_cons, hes, if_neg nofun, ih hes]
    rfl

theorem written_append (h : e.settles s = none) : written s f (es ++ [e]) =
    written s f es ++ if f = none then (e.accepted s).toList else [] := by
  induction es with
  | nil =>
    rw [List.nil_append, written_cons, fate, List.findSome?_nil]
    simp only [eq_comm, written, List.append_nil, List.nil_append]
  | cons d es ih =>
    rw [List.cons_append, written_cons, ih, fate_append, h, Option.or_none, written_cons,
      List.append_assoc]

theorem accepted_of_settles (h : e.settles s = some g) : e.accepted s = none := by
  obtain ⟨⟨side, use⟩, answer⟩ := e
  rw [LinkEvent.settles] at h
  rw [LinkEvent.accepted]
  split at h
  · next hs =>
    rw [if_pos hs]
    cases use <;> cases h <;> rfl
  · cases h

theorem written_singleton (h : e.settles s = some g) : written s f [e] = [] := by
  rw [written_cons, accepted_of_settles h, Option.toList_none, ite_self]
  rfl

theorem staged_settle (h : e.settles s = some g) : staged s (es ++ [e]) = [] := by
  rw [staged]
  induction es with
  | nil => exact written_singleton h
  | cons d es ih =>
    have hfate : fate s (es ++ [e]) ≠ none := by
      rw [fate_append, h]
      cases fate s es <;> nofun
    rw [List.cons_append, written_cons, if_neg hfate, ih]
    rfl

theorem flushed_flush (h : e.settles s = some .flushed) :
    flushed s (es ++ [e]) = flushed s es ++ staged s es := by
  rw [flushed, flushed, staged]
  induction es with
  | nil => exact written_singleton h
  | cons d es ih =>
    rw [List.cons_append, written_cons, ih, fate_append, h, written_cons, written_cons]
    cases hf : fate s es with
    | none => simp [written_of_undecided hf]
    | some g => cases g <;> simp

theorem flushed_withdraw (h : e.settles s = some .withdrawn) :
    flushed s (es ++ [e]) = flushed s es := by
  rw [flushed, flushed]
  induction es with
  | nil => exact written_singleton h
  | cons d es ih =>
    rw [List.cons_append, written_cons, ih, fate_append, h, written_cons]
    cases fate s es with
    | none => rfl
    | some g => rfl

theorem alive_append : Alive s (es ++ [e]) ↔ Alive s es ∧ ¬(e.side = s ∧ e.use = .drop) := by
  rw [Alive, List.forall_mem_append, List.forall_mem_singleton]
  rfl

theorem read_append (s : Side) (es : List LinkEvent) (e : LinkEvent) :
    read s (es ++ [e]) = read s es ++ (e.given s).toList := by
  rw [read, List.filterMap_append, read]
  cases hg : e.given s <;> simp [hg]

theorem written_append_of_ne (h : e.side ≠ s) (f : Option Fate) :
    written s f (es ++ [e]) = written s f es := by
  have hsettles : e.settles s = none := if_neg h
  have haccepted : e.accepted s = none := if_neg h
  rw [written_append hsettles, haccepted, Option.toList_none, ite_self, List.append_nil]

theorem read_append_of_ne (h : e.side ≠ s) : read s (es ++ [e]) = read s es := by
  have hgiven : e.given s = none := if_neg h
  rw [read_append, hgiven, Option.toList_none, List.append_nil]

/-- A direction is as the events at its ends tell. -/
structure Booked (v : Lane) (s : Side) (es : List LinkEvent) : Prop where
  writer : v.writer = true ↔ Alive s es
  reader : v.reader = true ↔ Alive s.other es
  stage : v.staged = staged s es
  unread : v.reader = true → flushed s es = read s.other es ++ v.unread
  begins : read s.other es <+: flushed s es
  bound : 0 < v.highWater →
    (flushed s es).length + v.staged.length ≤ (read s.other es).length + v.highWater

variable {v : Lane} {u : LinkUse} {a : LinkAnswer}

theorem Booked.unread_length (h : Booked v s es) (hr : v.reader = true) :
    v.unread.length = (flushed s es).length - (read s.other es).length := by
  rw [h.unread hr, List.length_append, Nat.add_sub_cancel_left]

theorem Booked.pass (h : Booked v s es) (hsettles : e.settles s = none)
    (haccepted : e.accepted s = none) (hgiven : e.given s.other = none) (huse : e.use ≠ .drop) :
    Booked v s (es ++ [e]) := by
  have hwritten (f : Option Fate) : written s f (es ++ [e]) = written s f es := by
    rw [written_append hsettles, haccepted, Option.toList_none, ite_self, List.append_nil]
  have hread : read s.other (es ++ [e]) = read s.other es := by
    rw [read_append, hgiven, Option.toList_none, List.append_nil]
  have halive (s : Side) : Alive s (es ++ [e]) ↔ Alive s es :=
    alive_append.trans (and_iff_left fun hd => huse hd.2)
  obtain ⟨writer, reader, stage, unread, begins, bound⟩ := h
  constructor
  · rw [halive]; exact writer
  · rw [halive]; exact reader
  · rw [Traffic.staged, hwritten]; exact stage
  · rw [flushed, hwritten, hread]; exact unread
  · rw [flushed, hwritten, hread]; exact begins
  · rw [flushed, hwritten, hread]; exact bound

theorem Booked.accept (h : Booked v s es) (hv : v.accepts = true) (p : Part) :
    Booked { v with staged := v.staged ++ [p] } s (es ++ [⟨⟨s, .write p⟩, .accepted⟩]) := by
  have hsettles : LinkEvent.settles ⟨⟨s, .write p⟩, .accepted⟩ s = none := if_pos rfl
  have haccepted : LinkEvent.accepted ⟨⟨s, .write p⟩, .accepted⟩ s = some p := if_pos rfl
  have hflushed : flushed s (es ++ [⟨⟨s, .write p⟩, .accepted⟩]) = flushed s es :=
    (written_append hsettles).trans (List.append_nil _)
  have hstaged : Traffic.staged s (es ++ [⟨⟨s, .write p⟩, .accepted⟩]) =
      Traffic.staged s es ++ [p] := by
    rw [Traffic.staged, written_append hsettles, haccepted]
    rfl
  have hread : read s.other (es ++ [⟨⟨s, .write p⟩, .accepted⟩]) = read s.other es :=
    read_append_of_ne s.ne_other
  have halive (s' : Side) : Alive s' (es ++ [⟨⟨s, .write p⟩, .accepted⟩]) ↔ Alive s' es :=
    alive_append.trans (and_iff_left nofun)
  obtain ⟨hr, hroom⟩ := Bool.and_eq_true_iff.1 hv
  constructor
  · rw [halive]; exact h.writer
  · rw [halive]; exact h.reader
  · rw [hstaged, ← h.stage]
  · rw [hflushed, hread]; exact h.unread
  · rw [hflushed, hread]; exact h.begins
  · intro hpos
    have hlength := h.unread_length hr
    have hle := h.begins.length_le
    have hne : (v.highWater == 0) = false := beq_false_of_ne (Nat.ne_of_gt hpos)
    rw [hne, Bool.false_or, decide_eq_true_iff] at hroom
    rw [hflushed, hread, List.length_append, List.length_singleton]
    change _ ≤ _ + v.highWater
    omega

theorem Booked.settle {writer : Bool} {unread : List Part} (h : Booked v s es) (hs : e.side = s)
    (hstaged : Traffic.staged s (es ++ [e]) = []) (hw : writer = true ↔ Alive s (es ++ [e]))
    (hu : v.reader = true → flushed s (es ++ [e]) = read s.other es ++ unread)
    (hle : flushed s es <+: flushed s (es ++ [e]))
    (hlength : (flushed s (es ++ [e])).length ≤ (flushed s es).length + v.staged.length) :
    Booked { v with writer, staged := [], unread } s (es ++ [e]) := by
  have hne : e.side ≠ s.other := hs ▸ s.ne_other
  have hread : read s.other (es ++ [e]) = read s.other es := read_append_of_ne hne
  have hreader : Alive s.other (es ++ [e]) ↔ Alive s.other es :=
    alive_append.trans (and_iff_left fun hd => hne hd.1)
  constructor
  · exact hw
  · rw [hreader]; exact h.reader
  · exact hstaged.symm
  · rw [hread]; exact hu
  · rw [hread]; exact h.begins.trans hle
  · intro hpos
    rw [hread]
    exact Nat.le_trans hlength (h.bound hpos)

theorem Booked.send (h : Booked v s es) (ha : ∀ p, u = .write p → a = v.answer u) :
    Booked (v.send u) s (es ++ [⟨⟨s, u⟩, a⟩]) := by
  have halive (hu : u ≠ .drop) : v.writer = true ↔ Alive s (es ++ [⟨⟨s, u⟩, a⟩]) :=
    h.writer.trans (alive_append.trans (and_iff_left fun hd => hu hd.2)).symm
  cases u with
  | write p =>
    obtain rfl := ha p rfl
    rw [Lane.send, Lane.answer]
    split
    · next hv => exact h.accept hv p
    · exact h.pass (if_pos rfl) (if_pos rfl) (if_neg (s.ne_other)) nofun
  | flush =>
    have hsettles : LinkEvent.settles ⟨⟨s, .flush⟩, a⟩ s = some .flushed := if_pos rfl
    have hflushed : flushed s (es ++ [⟨⟨s, .flush⟩, a⟩]) = flushed s es ++ Traffic.staged s es :=
      flushed_flush hsettles
    rw [← h.stage] at hflushed
    apply h.settle rfl (staged_settle hsettles) (halive nofun)
    · intro hr
      rw [if_pos hr, hflushed, h.unread hr, List.append_assoc]
    · rw [hflushed]
      exact List.prefix_append ..
    · exact Nat.le_of_eq (by rw [hflushed, List.length_append])
  | rollback =>
    have hsettles : LinkEvent.settles ⟨⟨s, .rollback⟩, a⟩ s = some .withdrawn := if_pos rfl
    have hflushed : flushed s (es ++ [⟨⟨s, .rollback⟩, a⟩]) = flushed s es :=
      flushed_withdraw hsettles
    apply h.settle rfl (staged_settle hsettles) (halive nofun)
    · rw [hflushed]
      exact h.unread
    · exact hflushed ▸ List.prefix_rfl
    · rw [hflushed]
      exact Nat.le_add_right ..
  | read => exact h.pass (if_pos rfl) (if_pos rfl) (if_neg (s.ne_other)) nofun
  | drop =>
    have hsettles : LinkEvent.settles ⟨⟨s, .drop⟩, a⟩ s = some .withdrawn := if_pos rfl
    have hflushed : flushed s (es ++ [⟨⟨s, .drop⟩, a⟩]) = flushed s es :=
      flushed_withdraw hsettles
    have hdead : ¬Alive s (es ++ [⟨⟨s, .drop⟩, a⟩]) := fun hd => (alive_append.1 hd).2 ⟨rfl, rfl⟩
    apply h.settle rfl (staged_settle hsettles) (iff_of_false Bool.false_ne_true hdead)
    · rw [hflushed]
      exact h.unread
    · exact hflushed ▸ List.prefix_rfl
    · rw [hflushed]
      exact Nat.le_add_right ..

theorem read_take (h : Booked v s es) (hr : v.reader = true) :
    read s.other (es ++ [⟨⟨s.other, .read⟩, .given v.unread.head?⟩]) =
      (flushed s es).take ((read s.other es).length + 1) := by
  have hgiven : LinkEvent.given ⟨⟨s.other, .read⟩, .given v.unread.head?⟩ s.other =
      v.unread.head? := if_pos rfl
  rw [read_append, hgiven, h.unread hr, List.take_length_add_append]
  cases v.unread <;> rfl

theorem Booked.take (h : Booked v s es) (hr : v.reader = true)
    (ha : u = .read → a = v.answer u) :
    Booked (v.take u) s (es ++ [⟨⟨s.other, u⟩, a⟩]) := by
  have hne : s.other ≠ s := (s.ne_other).symm
  have hflushed : flushed s (es ++ [⟨⟨s.other, u⟩, a⟩]) = flushed s es :=
    written_append_of_ne hne _
  have hstaged : Traffic.staged s (es ++ [⟨⟨s.other, u⟩, a⟩]) = Traffic.staged s es :=
    written_append_of_ne hne _
  have hwriter : Alive s (es ++ [⟨⟨s.other, u⟩, a⟩]) ↔ Alive s es :=
    alive_append.trans (and_iff_left fun hd => hne hd.1)
  cases u with
  | write p => exact h.pass (if_neg hne) (if_neg hne) (if_pos rfl) nofun
  | flush => exact h.pass (if_neg hne) (if_neg hne) (if_pos rfl) nofun
  | rollback => exact h.pass (if_neg hne) (if_neg hne) (if_pos rfl) nofun
  | read =>
    obtain rfl := ha rfl
    have hreader : Alive s.other (es ++ [⟨⟨s.other, .read⟩, v.answer .read⟩]) ↔
        Alive s.other es := alive_append.trans (and_iff_left nofun)
    have hread := read_take h hr
    constructor
    · rw [hwriter]; exact h.writer
    · rw [hreader]; exact h.reader
    · rw [hstaged]; exact h.stage
    · intro _
      rw [hflushed, Lane.answer, hread, h.unread hr, List.take_length_add_append, Lane.take,
        List.append_assoc]
      cases v.unread <;> rfl
    · rw [hflushed, Lane.answer, hread]
      exact List.take_prefix ..
    · intro hpos
      have hbound := h.bound hpos
      have hle := h.begins.length_le
      rw [hflushed, Lane.answer, hread, List.length_take]
      change _ + v.staged.length ≤ _ + v.highWater
      omega
  | drop =>
    have hdead : ¬Alive s.other (es ++ [⟨⟨s.other, .drop⟩, a⟩]) := fun hd =>
      (alive_append.1 hd).2 ⟨rfl, rfl⟩
    have hread : read s.other (es ++ [⟨⟨s.other, .drop⟩, a⟩]) = read s.other es := by
      have hgiven : LinkEvent.given ⟨⟨s.other, .drop⟩, a⟩ s.other = none := if_pos rfl
      rw [read_append, hgiven, Option.toList_none, List.append_nil]
    constructor
    · rw [hwriter]; exact h.writer
    · exact iff_of_false Bool.false_ne_true hdead
    · rw [hstaged]; exact h.stage
    · exact fun hr => absurd hr Bool.false_ne_true
    · rw [hflushed, hread]; exact h.begins
    · rw [hflushed, hread]; exact h.bound

variable {t t' : Traffic} {c : LinkCall} {cs : List LinkCall}

theorem booked_start (first : PipeId) (highWater : Nat) (s : Side) :
    Booked ((start first highWater).link.lane s) s (start first highWater).events := by
  have hlane : (start first highWater).link.lane s = ⟨highWater, true, true, [], []⟩ := by
    cases s <;> rfl
  have hnone (s : Side) : Alive s (start first highWater).events := List.forall_mem_nil _
  rw [hlane]
  exact ⟨iff_of_true rfl (hnone _), iff_of_true rfl (hnone _), rfl, fun _ => rfl,
    List.prefix_rfl, fun _ => Nat.zero_le _⟩

theorem booked_play (h : Booked (t.link.lane s) s t.events) (c : LinkCall) :
    Booked ((t.play c).link.lane s) s (t.play c).events := by
  rw [play]
  split
  · next hlive =>
    obtain ⟨side, use⟩ := c
    obtain rfl | rfl := s.eq_or_other side
    · rw [Link.lane_perform]
      refine h.send fun p hp => ?_
      rw [hp]
      exact Link.answer_write ..
    · rw [Link.lane_perform_other]
      refine h.take hlive fun hread => ?_
      rw [hread]
      exact Link.answer_read ..
  · exact h

theorem booked_run (h : Booked (t.link.lane s) s t.events) (cs : List LinkCall) :
    Booked ((t.run cs).link.lane s) s (t.run cs).events := by
  induction cs generalizing t with
  | nil => exact h
  | cons c cs ih => exact ih (booked_play h c)

theorem highWater_run (t : Traffic) (cs : List LinkCall) :
    (t.run cs).link.highWater = t.link.highWater := by
  induction cs generalizing t with
  | nil => rfl
  | cons c cs ih =>
    refine (ih (t.play c)).trans ?_
    rw [play]
    split
    · exact Link.highWater_perform ..
    · rfl

theorem read_run_reads (h : Booked (t.link.lane s) s t.events)
    (hr : Alive s.other t.events) (n : Nat) :
    read s.other (t.run (List.replicate n ⟨s.other, .read⟩)).events =
      (flushed s t.events).take ((read s.other t.events).length + n) := by
  induction n generalizing t with
  | zero => exact List.prefix_iff_eq_take.1 h.begins
  | succ n ih =>
    have hlive : (t.link.lane s).reader = true := h.reader.2 hr
    have hplay : (t.play ⟨s.other, .read⟩).events =
        t.events ++ [⟨⟨s.other, .read⟩, .given (t.link.lane s).unread.head?⟩] := by
      have hget : (t.link.get s.other).live = true := hlive
      rw [play, if_pos hget, Link.answer_read]
      rfl
    have hflushed : flushed s (t.play ⟨s.other, .read⟩).events = flushed s t.events := by
      rw [hplay]
      exact written_append_of_ne (s.ne_other).symm _
    have halive : Alive s.other (t.play ⟨s.other, .read⟩).events := by
      rw [hplay]
      exact alive_append.2 ⟨hr, nofun⟩
    have hread := read_take h hlive
    rw [← hplay] at hread
    refine (ih (booked_play h _) halive).trans ?_
    rw [hflushed, hread, List.length_take]
    obtain hle | hlt := Nat.le_total (flushed s t.events).length ((read s.other t.events).length + 1)
    · rw [Nat.min_eq_right hle, List.take_of_length_le (Nat.le_add_right ..),
        List.take_of_length_le (by omega)]
    · rw [Nat.min_eq_left hlt, Nat.add_right_comm, Nat.add_assoc]

/-- What there is of one direction: its state, and what was done with it. -/
def along (t : Traffic) (s : Side) : Lane × List LinkEvent :=
  (t.link.lane s, t.events.filter (·.concerns s))

theorem along_play_of_not_concerns (h : c.concerns s = false) :
    (t.play c).along s = t.along s := by
  rw [play]
  split
  · rw [along, along, List.filter_append, List.filter_cons,
      if_neg (ne_true_of_eq_false h), List.filter_nil, List.append_nil,
      Link.lane_perform_of_not_concerns h]
  · rfl

theorem along_play_congr (hc : c.concerns s = true) (h : t.along s = t'.along s) :
    (t.play c).along s = (t'.play c).along s := by
  obtain ⟨hlane, hevents⟩ := Prod.mk.inj h
  have hlive : (t.link.get c.side).live = (t'.link.get c.side).live := by
    obtain hs | hs := s.eq_or_other c.side
    · rw [hs]
      exact congrArg Lane.writer hlane
    · rw [hs]
      exact congrArg Lane.reader hlane
  obtain ⟨hanswer, hnext⟩ := Link.perform_congr hc hlane
  rw [play, play, hlive]
  split
  · rw [along, along, List.filter_append, List.filter_append, hevents, hanswer, hnext]
  · exact h

/-- What is done with one direction only has no effect on the other. -/
theorem along_run (h : t.along s = t'.along s) (cs : List LinkCall) :
    (t.run cs).along s = (t'.run (cs.filter (·.concerns s))).along s := by
  induction cs generalizing t t' with
  | nil => exact h
  | cons c cs ih =>
    cases hc : c.concerns s with
    | true =>
      rw [List.filter_cons, if_pos hc]
      exact ih (along_play_congr hc h)
    | false =>
      rw [List.filter_cons, if_neg (ne_true_of_eq_false hc)]
      exact ih ((along_play_of_not_concerns hc).trans h)

/-- How many parts of the direction that leaves an end are flushed and unread, or staged. -/
def waiting (t : Traffic) (s : Side) : Nat :=
  (flushed s t.events).length - (read s.other t.events).length + (staged s t.events).length

/-- The direction that leaves an end passes on what is flushed, and keeps within the mark. -/
structure Faithful (t : Traffic) (s : Side) : Prop where
  begins : read s.other t.events <+: flushed s t.events
  /-- The next part to be read is the next that was flushed: what is staged cannot be seen. -/
  next : Alive s.other t.events → (t.link.perform s.other .read).1 =
    .given ((flushed s t.events).drop (read s.other t.events).length).head?
  /-- All that was flushed can still be read, whether or not the end that wrote it is alive. -/
  recoverable : Alive s.other t.events → ∀ n,
    read s.other (t.run (List.replicate n ⟨s.other, .read⟩)).events =
      (flushed s t.events).take ((read s.other t.events).length + n)
  load : Alive s.other t.events → t.link.load s = t.waiting s
  bound : 0 < t.link.highWater → t.waiting s ≤ t.link.highWater
  accepts : ∀ p, (t.link.perform s (.write p)).1 = .accepted ↔
    Alive s.other t.events ∧ (t.link.highWater = 0 ∨ t.waiting s < t.link.highWater)
  refuses : ∀ p, (t.link.perform s (.write p)).1 ≠ .accepted →
    t.link.perform s (.write p) = (.refused p, t.link)
  closed : Alive s.other t.events → (t.link.isClosed s.other = true ↔
    ¬Alive s t.events ∧ read s.other t.events = flushed s t.events)

theorem Booked.load (h : Booked (t.link.lane s) s t.events) (hr : Alive s.other t.events) :
    t.link.load s = t.waiting s := by
  rw [waiting, ← h.unread_length (h.reader.2 hr), ← h.stage]
  rfl

theorem Booked.accepts (h : Booked (t.link.lane s) s t.events) :
    (t.link.lane s).accepts = true ↔
      Alive s.other t.events ∧ (t.link.highWater = 0 ∨ t.waiting s < t.link.highWater) := by
  rw [Lane.accepts, Bool.and_eq_true, h.reader, Bool.or_eq_true, beq_iff_eq, decide_eq_true_iff]
  refine and_congr_right fun hr => ?_
  rw [← h.load hr]
  rfl

theorem Booked.closed (h : Booked (t.link.lane s) s t.events) (hr : Alive s.other t.events) :
    t.link.isClosed s.other = true ↔
      ¬Alive s t.events ∧ read s.other t.events = flushed s t.events := by
  have hclosed : t.link.isClosed s.other =
      (!(t.link.lane s).writer && (t.link.lane s).unread.isEmpty) := by
    rw [Link.isClosed, Link.peerGone, Side.other_other]
    rfl
  rw [hclosed, Bool.and_eq_true, Bool.not_eq_true', List.isEmpty_iff, ← Bool.not_eq_true,
    h.writer, h.unread (h.reader.2 hr), List.self_eq_append_right]

theorem Booked.faithful (h : Booked (t.link.lane s) s t.events) : Faithful t s where
  begins := h.begins
  next hr := by
    rw [Link.answer_read, h.unread (h.reader.2 hr), List.drop_left]
    rfl
  recoverable hr := read_run_reads h hr
  load hr := h.load hr
  bound hpos := by
    have hbound := h.bound hpos
    have hle := h.begins.length_le
    rw [h.stage] at hbound
    change _ ≤ _ + t.link.highWater at hbound
    rw [waiting]
    omega
  accepts p := by
    rw [← h.accepts, Link.perform_write]
    cases (t.link.lane s).accepts with
    | true => exact iff_of_true rfl rfl
    | false => exact iff_of_false nofun nofun
  refuses p hrefused := by
    rw [Link.perform_write] at hrefused ⊢
    cases hv : (t.link.lane s).accepts with
    | true =>
      rw [if_pos hv] at hrefused
      exact absurd rfl hrefused
    | false => rfl
  closed hr := h.closed hr

/-- Whatever is done with the two ends of a fresh link, and in which order, each direction is
faithful and has no part in the other. -/
theorem faithful_run (first : PipeId) (highWater : Nat) (cs : List LinkCall) (s : Side) :
    ((start first highWater).run cs).link.highWater = highWater ∧
    Faithful ((start first highWater).run cs) s ∧
    ((start first highWater).run cs).along s =
      ((start first highWater).run (cs.filter (·.concerns s))).along s :=
  ⟨highWater_run .., (booked_run (booked_start first highWater s) cs).faithful, along_run rfl cs⟩

/-- The third part is refused, and the second is read after the end that flushed it is gone. -/
example :
    let part (b : UInt8) : Part := .ofBytes [b]
    let t := (start ⟨0⟩ 2).run [⟨.left, .write (part 1)⟩, ⟨.left, .write (part 2)⟩,
      ⟨.left, .write (part 3)⟩, ⟨.left, .flush⟩, ⟨.left, .drop⟩, ⟨.right, .read⟩, ⟨.right, .read⟩]
    read .right t.events = [part 1, part 2] ∧ t.link.isClosed .right = true := by
  decide

end Traffic

end Zmtp
