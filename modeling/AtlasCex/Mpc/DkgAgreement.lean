import AtlasCex.Mpc.DkgViews
/-!
# Shares of one key come from one session

If two honest participants installed shares of two sessions, each sealed its envelope for the other's
session before it began its own, with a transcript that holds the package the other sampled when *it*
began (`Before`): each began before the other. What breaks the circle is a session that begins where a
share is installed already. `round1` looks for a share in one store call and begins in another.
-/
namespace AtlasCex.Mpc.Dkg

open Lib (exec Along exec_inv)

variable {all : Packages}

theorem Below.mono {m n : Nat} (h : Below m all) (hmn : m ≤ n) : Below n all :=
  fun j k hk => (h j k hk).trans_le hmn

/-- An earlier row of the same key is aborted, and its packages were sampled before the later row. -/
def Session.Before (r r' : Session) : Prop :=
  r.keyRef = r'.keyRef → r.phase = .aborted ∧
    ∀ all, r.round1Packages = some all → ∀ m, r'.round1Package = .fresh m → Below m all

structure NodeOk (sampled : Nat) (node : Node) : Prop where
  own : ∀ r ∈ node.sessions, ∃ n < sampled, r.round1Package = .fresh n
  order : node.sessions.Pairwise Session.Before
  below : ∀ r ∈ node.sessions, ∀ all, r.round1Packages = some all → Below sampled all
  committed : ∀ r ∈ node.sessions, r.phase = .committed → ∃ share ∈ node.shares, share.keyRef = r.keyRef
  shares : ∀ share ∈ node.shares, ∃ r ∈ node.sessions, r.sessionId = share.sessionId ∧
    r.keyRef = share.keyRef ∧ r.phase = .committed
  tasks : ∀ session all, Task.round2 session (some all) ∈ node.tasks → Below sampled all

structure Sound (library : Library) (honest : Identifier → Bool) (s : World) : Prop where
  views : Views library honest s
  nodes : ∀ i, honest i = true → NodeOk s.sampled (s.nodes i)

variable {library : Library} {honest : Identifier → Bool} {s t : World} {i j : Identifier}
  {sampled : Nat} {node : Node} {r r' q q' : Session} {cause : Cause}

theorem NodeOk.mono {sampled' : Nat} (h : NodeOk sampled node) (hle : sampled ≤ sampled') :
    NodeOk sampled' node where
  own r hr := by
    obtain ⟨n, hn, hpackage⟩ := h.own r hr
    exact ⟨n, hn.trans_le hle, hpackage⟩
  order := h.order
  below r hr all hall := (h.below r hr all hall).mono hle
  committed := h.committed
  shares := h.shares
  tasks session all htask := (h.tasks session all htask).mono hle

/-! ## One step of one participant -/

theorem Session.Changed.aborted_stays (h : r.Changed library honest s t i cause r')
    (hphase : r.phase = .aborted) :
    r'.phase = .aborted ∧ r'.round1Packages = r.round1Packages := by
  cases h with
  | same => exact ⟨hphase, rfl⟩
  | superseded | aborted => exact ⟨rfl, rfl⟩
  | round2 _ h | verified _ h | committed h =>
    rw [hphase] at h
    cases h

/-- Packages come to a row in round 2. -/
theorem Session.Changed.packages_from (h : r.Changed library honest s t i cause r')
    (hall : r'.round1Packages = some all) :
    r.round1Packages = some all ∨ ∃ session, cause = .task (.round2 session (some all)) := by
  cases h with
  | same | superseded | aborted | committed | verified => exact .inl hall
  | round2 hkept hphase hchecks =>
    obtain rfl := Option.some.inj hall
    obtain rfl := (Option.filter_eq_some_iff.1 hchecks).1
    exact .inr ⟨_, rfl⟩

theorem Session.Before.changed (h : r.Before q) (hv : Views library honest s)
    (hr : r ∈ (s.nodes i).sessions) (hq : q ∈ (s.nodes i).sessions)
    (hr' : r.Changed library honest s t i cause r') (hq' : q.Changed library honest s t i cause q') :
    r'.Before q' := by
  have hkept := hr'.extends (hv.rows i r hr)
  have hkept' := hq'.extends (hv.rows i q hq)
  intro hkey
  rw [hkept.keyRef, hkept'.keyRef] at hkey
  obtain ⟨haborted, hbelow⟩ := h hkey
  obtain ⟨hphase, hpackages⟩ := hr'.aborted_stays haborted
  refine ⟨hphase, fun all hall m hm => hbelow all (hpackages ▸ hall) m ?_⟩
  rwa [hkept'.round1Package] at hm

/-- What a step may begin and send. -/
structure Allowed (s : World) (i : Identifier) (cause : Cause) : Prop where
  sendable : ∀ request, cause = .request request → sendable s request = true
  bare : ∀ sessionId keyRef, cause = .task (.round1Begin sessionId keyRef) →
    (s.nodes i).loadShare keyRef = none
  task : ∀ task, cause = .task task → task ∈ (s.nodes i).tasks

/-- With no share of the key installed, every earlier session of the key is aborted. -/
theorem NodeOk.begun {g : Session → Session} (h : NodeOk s.sampled (s.nodes i))
    (hallowed : Allowed s i cause) (hbegun : Begun s t i g cause r) (hq : q ∈ (s.nodes i).sessions)
    (hchanged : q.Changed library honest s t i cause (g q)) (hkey : q.keyRef = r.keyRef) :
    (g q).phase = .aborted ∧
      ∀ all, (g q).round1Packages = some all → ∀ m, r.round1Package = .fresh m → Below m all := by
  constructor
  · refine hbegun.superseded q hq hkey fun hphase => ?_
    obtain ⟨share, hshare, hkey'⟩ := h.committed q hq hphase
    have hbare := hallowed.bare _ _ hbegun.cause
    simp only [Node.loadShare, List.find?_eq_none, decide_eq_true_eq] at hbare
    exact hbare share hshare (hkey'.trans hkey)
  · intro all hall m hm
    rw [hbegun.row] at hm
    cases hm
    obtain hold | ⟨session, hround2⟩ := hchanged.packages_from hall
    · exact h.below q hq all hold
    · rw [hbegun.cause] at hround2
      cases hround2

theorem NodeOk.moved (h : NodeOk s.sampled (s.nodes i)) (hv : Views library honest s)
    (hm : Moved library honest s i cause node t) (hallowed : Allowed s i cause) :
    NodeOk t.sampled node := by
  constructor
  case own =>
    intro r hr
    obtain ⟨q, hq, hchanged⟩ | ⟨g, hbegun⟩ := hm.row hr
    · rw [(hchanged.extends (hv.rows i q hq)).round1Package]
      obtain ⟨n, hn, hpackage⟩ := h.own q hq
      exact ⟨n, hn.trans_le hm.sampled, hpackage⟩
    · rw [hbegun.row, hbegun.sampled]
      exact ⟨s.sampled, Nat.lt_succ_self _, rfl⟩
  case order =>
    obtain ⟨g, new, hsessions, hchanged, hbegun⟩ := hm.rows
    rw [hsessions]
    refine List.pairwise_append.2 ⟨?_, by cases new <;> simp, fun p hp r hr hkey => ?_⟩
    · refine List.pairwise_map.2 (h.order.imp_of_mem fun hr hq hbefore => ?_)
      exact hbefore.changed hv hr hq (hchanged _ hr) (hchanged _ hq)
    · obtain ⟨q, hq, rfl⟩ := List.mem_map.1 hp
      rw [((hchanged q hq).extends (hv.rows i q hq)).keyRef] at hkey
      exact h.begun hallowed (hbegun r (Option.mem_toList.1 hr)) hq (hchanged q hq) hkey
  case below =>
    intro r hr all hall
    obtain ⟨q, hq, hchanged⟩ | ⟨g, hbegun⟩ := hm.row hr
    · obtain hold | ⟨session, hcause⟩ := hchanged.packages_from hall
      · exact (h.below q hq all hold).mono hm.sampled
      · exact (h.tasks session all (hallowed.task _ hcause)).mono hm.sampled
    · rw [hbegun.row] at hall
      cases hall
  case committed =>
    intro r hr hphase
    obtain hold | hshare := hm.committed r hr hphase
    · obtain ⟨share, hshare, hkey⟩ := h.committed r hold hphase
      exact ⟨share, hm.stay hshare, hkey⟩
    · exact hshare
  case shares =>
    intro share hshare
    obtain hold | ⟨r, hr, -, -, hid, hkey, hmem⟩ := hm.shares share hshare
    · obtain ⟨r, hr, hid, hkey, hphase⟩ := h.shares share hold
      exact ⟨r, hm.committed_mem hr hphase, hid, hkey, hphase⟩
    · exact ⟨_, hmem, hid.symm, hkey.symm, rfl⟩
  case tasks =>
    intro session all htask
    obtain hold | hnew := hm.tasks _ htask
    · exact (h.tasks session all hold).mono hm.sampled
    · cases hnew with
      | received hreceived =>
        cases hreceived
        exact (of_decide_eq_true (hallowed.sendable _ rfl)).mono hm.sampled

theorem Sound.moved (h : Sound library honest s) (hm : Moved library honest s i cause node t)
    (hallowed : honest i = true → Allowed s i cause) : Sound library honest t := by
  refine ⟨h.views.moved hm, ?_⟩
  rw [hm.nodes]
  refine (Function.forall_update_iff s.nodes fun j (n : Node) => honest j = true →
    NodeOk t.sampled n).2 ⟨fun hi => ?_, fun j _ hj => ?_⟩
  · exact (h.nodes i hi).moved h.views hm (hallowed hi)
  · exact (h.nodes j hj).mono hm.sampled

/-! ## Runs -/

/-- No session begins where a share of its key is installed. -/
def BeginsBare (honest : Identifier → Bool) (s : World) : Label → Prop
  | .work i (.round1Begin _ keyRef) => honest i = true → (s.nodes i).loadShare keyRef = none
  | _ => True

theorem Sound.step {label : Label} (h : Sound library honest s) (hbare : BeginsBare honest s label)
    (hstep : step library honest s label = some t) : Sound library honest t := by
  cases label with
  | deliver i request =>
    simp only [Dkg.step, Option.ite_none_right_eq_some] at hstep
    obtain ⟨node, hm⟩ := moved_deliver hstep.2
    refine h.moved hm fun _ => ⟨?_, by simp, by simp⟩
    rintro _ ⟨⟩
    exact hstep.1
  | work i task =>
    obtain ⟨hmem, node, hm⟩ := h.views.moved_work hstep
    refine h.moved hm fun hi => ⟨by simp, ?_, ?_⟩
    · rintro sessionId keyRef ⟨⟩
      exact hbare hi
    · rintro _ ⟨⟩
      exact hmem
  | restart i =>
    cases hstep
    obtain ⟨node, hm⟩ := moved_restart
    exact h.moved hm fun _ => ⟨by simp, by simp, by simp⟩

theorem Sound.initial : Sound library honest World.initial := by
  refine ⟨.initial, fun i _ => ?_⟩
  constructor <;> simp [World.initial]

/-- Of two rows of one key, one is aborted and older than the other's package. -/
theorem NodeOk.before (h : NodeOk sampled node)
    (hr : r ∈ node.sessions) (hq : q ∈ node.sessions) (hne : r.sessionId ≠ q.sessionId) :
    r.Before q ∨ q.Before r := by
  have : Std.Symm fun a b : Session => a.Before b ∨ b.Before a := ⟨fun _ _ => Or.symm⟩
  have hboth : node.sessions.Pairwise fun a b => a.Before b ∨ b.Before a := h.order.imp .inl
  exact hboth.forall hr hq fun heq => hne (congrArg _ heq)

/-- A committed row is the last of its key: the packages of any other are older than its own. -/
theorem NodeOk.committed_last (h : NodeOk sampled node)
    (hr : r ∈ node.sessions) (hphase : r.phase = .committed) (hq : q ∈ node.sessions)
    (hne : r.sessionId ≠ q.sessionId) (hkey : r.keyRef = q.keyRef)
    (hall : q.round1Packages = some all) {m : Nat} (hm : r.round1Package = .fresh m) :
    Below m all := by
  obtain hbefore | hbefore := h.before hr hq hne
  · obtain ⟨haborted, -⟩ := hbefore hkey
    rw [hphase] at haborted
    cases haborted
  · exact (hbefore hkey.symm).2 all hall m hm

/-- A row is verified because every honest participant computed round 2 with its packages. -/
theorem Views.backed (h : Views library honest s) (hr : r ∈ (s.nodes i).sessions)
    (hderived : r.derived = true) : ∃ all, r.round1Packages = some all ∧
      ∀ j, honest j = true → Shows s j ⟨r.sessionId, r.keyRef, all⟩ := by
  obtain ⟨g, hg⟩ := Option.isSome_iff_exists.1 ((h.rows i r hr).derived hderived)
  obtain ⟨all, hall, -, hshows⟩ := (h.rows i r hr).result g hg
  exact ⟨all, hall, hshows⟩

theorem Sound.agree (h : Sound library honest s) (hi : honest i = true)
    (hj : honest j = true) {share other : Installed} (hshare : share ∈ (s.nodes i).shares)
    (hother : other ∈ (s.nodes j).shares) (hkey : share.keyRef = other.keyRef) :
    share.sessionId = other.sessionId := by
  by_contra hne
  obtain ⟨r, hr, hid, hkey₁, hphase⟩ := (h.nodes i hi).shares share hshare
  obtain ⟨q, hq, hid', hkey₂, hphase'⟩ := (h.nodes j hj).shares other hother
  obtain ⟨all, hall, hbacked⟩ := h.views.backed hr (by simp [Session.derived, hphase])
  obtain ⟨all', hall', hbacked'⟩ := h.views.backed hq (by simp [Session.derived, hphase'])
  obtain ⟨m, -, hm⟩ := (h.nodes i hi).own r hr
  obtain ⟨m', -, hm'⟩ := (h.nodes j hj).own q hq
  -- Each has a row of the other's session, older than its own committed one.
  obtain ⟨q', hq', hqid, hqkey, hqall⟩ := hbacked' i hi
  obtain ⟨r', hr', hrid, hrkey, hrall⟩ := hbacked j hj
  have hbelow : Below m all' := (h.nodes i hi).committed_last hr hphase hq'
    (by rw [hid, hqid, hid']; exact hne) (by rw [hkey₁, hqkey, hkey₂]; exact hkey) hqall hm
  have hbelow' : Below m' all := (h.nodes j hj).committed_last hq hphase' hr'
    (by rw [hid', hrid, hid]; exact Ne.symm hne) (by rw [hkey₂, hrkey, hkey₁]; exact hkey.symm)
    hrall hm'
  have hown := ((h.views.rows i r hr).packages all hall).1
  have hown' := ((h.views.rows j q hq).packages all' hall').1
  have hlt : m < m' := hbelow' i m (by rw [hown, hm]; rfl)
  have hlt' : m' < m := hbelow j m' (by rw [hown', hm']; rfl)
  omega

/-- **Agreement.** In every run in which no honest participant begins a session where a share of its
key is installed, all shares of a key that honest participants hold are of one session. -/
theorem shares_of_one_session {labels : List Label}
    (hrun : exec (step library honest) World.initial labels = some t)
    (hbare : Along (step library honest) (BeginsBare honest) World.initial labels)
    (i j : Identifier) (hi : honest i = true) (hj : honest j = true) (share other : Installed)
    (hshare : share ∈ (t.nodes i).shares) (hother : other ∈ (t.nodes j).shares)
    (hkey : share.keyRef = other.keyRef) : share.sessionId = other.sessionId :=
  (exec_inv Sound.initial (fun _ _ _ h hok hstep => h.step hok hstep) hbare hrun).agree hi hj hshare
    hother hkey

/-! ## A session that begins too late -/

instance (honest : Identifier → Bool) (s : World) : ∀ label, Decidable (BeginsBare honest s label)
  | .work i (.round1Begin _ keyRef) =>
    inferInstanceAs (Decidable (honest i = true → (s.nodes i).loadShare keyRef = none))
  | .work _ (.round1Session ..) | .work _ (.round2 ..) | .work _ (.finalize ..)
  | .work _ (.abort ..) | .work _ (.commit ..) | .deliver .. | .restart _ => isTrue trivial

def everyone : Identifier → Bool := fun _ => true

/-- A library that takes everything; a group is known by the package of the first participant. -/
def sampleLibrary : Library where
  part2 := fun _ _ => true
  evaluate := fun _ _ => 0
  part3 := fun _ _ _ => true
  publicPackage := fun all => (all 0).number.getD 0

/-- Round 1 of a session up to the check for a share and the look for the session. -/
def asked (sessionId : SessionId) (i : Identifier) : List Label :=
  [.deliver i (.round1 sessionId "user:1" 3 5), .work i (.round1Session sessionId "user:1")]

def begun (sessionId : SessionId) (i : Identifier) : Label :=
  .work i (.round1Begin sessionId "user:1")

def row (sessionId : SessionId) (all : Packages) (i : Identifier) : Session :=
  ⟨sessionId, "user:1", .round1, all i, none, none, none⟩

def exchanged (sessionId : SessionId) (all : Packages) (i : Identifier) : List Label :=
  [.deliver i (.round2 sessionId "user:1" (some all)),
    .work i (.round2 (row sessionId all i) (some all))]

/-- Rounds 3 and 4 at one participant, with the envelopes of the others. -/
def installed (sessionId : SessionId) (all : Packages) (i : Identifier) : List Label :=
  let transcript : Transcript := ⟨sessionId, "user:1", all⟩
  let envelopes := (others i).map fun j => ⟨j, i, sessionId, "user:1", transcript, 0⟩
  [.deliver i (.finalize sessionId "user:1" envelopes),
    .work i (.finalize { row sessionId all i with
      phase := .round2, round1Packages := some all, transcript := some transcript } envelopes),
    .deliver i (.commit sessionId "user:1" ((all 0).number.getD 0)),
    .work i (.commit sessionId ((all 0).number.getD 0))]

def roster : List Identifier := [0, 1, 2, 3, 4]

/-- A whole ceremony up to the envelopes; `all` is in the order of the roster. -/
def ceremony (sessionId : SessionId) (all : Packages) : List Label :=
  roster.flatMap (fun i => asked sessionId i ++ [begun sessionId i]) ++
    roster.flatMap (exchanged sessionId all)

def firstPackages : Packages := fun i => .fresh i

/-- Participant 0 looks for a share of the second session, then installs one of the first, then
begins the second. -/
def overlapped : List Label :=
  let second : Packages := fun i => .fresh (9 - i)
  ceremony "s1" firstPackages ++ asked "s2" 0 ++ installed "s1" firstPackages 0 ++
    [4, 3, 2, 1].flatMap (fun i => asked "s2" i ++ [begun "s2" i]) ++ [begun "s2" 0] ++
    roster.flatMap (exchanged "s2" second) ++ installed "s2" second 1

theorem shares_of_two_sessions :
    ∃ t, exec (step sampleLibrary everyone) World.initial overlapped = some t ∧
      ∃ share ∈ (t.nodes 0).shares, ∃ other ∈ (t.nodes 1).shares,
        share.keyRef = other.keyRef ∧ share.sessionId ≠ other.sessionId :=
  Lib.exec_reaches (by decide +kernel)

/-- One ceremony that two participants have installed. -/
theorem shares_of_one_session_installed :
    ∃ t, exec (step sampleLibrary everyone) World.initial
        (ceremony "s1" firstPackages ++ installed "s1" firstPackages 0 ++
          installed "s1" firstPackages 1) = some t ∧
      (t.nodes 0).shares = [⟨"user:1", "s1", 0⟩] ∧
      ∀ share ∈ (t.nodes 0).shares, ∀ other ∈ (t.nodes 1).shares,
        share.keyRef = other.keyRef → share.sessionId = other.sessionId := by
  obtain ⟨t, ht, hshare⟩ : ∃ t, exec (step sampleLibrary everyone) World.initial
      (ceremony "s1" firstPackages ++ installed "s1" firstPackages 0 ++
        installed "s1" firstPackages 1) = some t ∧
      (t.nodes 0).shares = [⟨"user:1", "s1", 0⟩] := Lib.exec_reaches (by decide +kernel)
  exact ⟨t, ht, hshare, fun share h other h' =>
    shares_of_one_session ht (by decide +kernel) 0 1 rfl rfl share other h h'⟩

end AtlasCex.Mpc.Dkg
