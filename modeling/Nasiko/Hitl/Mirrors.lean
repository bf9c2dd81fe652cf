import Nasiko.Hitl.System

/-!
# Which row is a mirror

An agent names the row of the gateway that it waits for in the metadata of its own pause, as text.
Four places read this text.

- The list of the pending rows leaves a mirror out (`listPendingFor`): the text has to look like
  an id.
- A chat shows the row of the gateway in place of its mirror (`resolveDisplayRow`).
- The decision about a row of the gateway is copied to its mirror, which `findLinkedDirectChatRow`
  finds.
- The stream of a mirror that is delivered is found under the id of the row of the gateway
  (`aliasMirror`).

The first two ask for a row of the gateway that is still pending. The third one runs when that row
has been decided, and asks for a pending mirror instead. `one_link` says that they agree about the
link itself, for a text as `Uuid.toStr` writes it, and that the alias does so while the row is
pending.
-/

namespace Nasiko.Hitl

open Concurrency Program Sql Option List Bool Except Uuid Table

/-! ## The list of the pending rows -/

/-- `~* '^[0-9a-f]{8}-[0-9a-f]{4}-[0-9a-f]{4}-[0-9a-f]{4}-[0-9a-f]{12}$'`. -/
def matchesUuid (s : Str) : Bool :=
  s.length == 36 && s[8]? == some '-' && s[13]? == some '-' && s[18]? == some '-' &&
    s[23]? == some '-' && (s.take 8 ++ (s.drop 9).take 4 ++ (s.drop 14).take 4 ++
      (s.drop 19).take 4 ++ s.drop 24).all Str.isHexDigit

/-- The conditions of `EXISTS`, for one row. -/
def filterTarget (h : HitlRequest) (link : Str) (linked : HitlRequest) : Bool :=
  some linked.id == Uuid.parseHyphenated link && linked.status == .pending &&
    linked.ownerUserId == h.ownerUserId && linked.origin == .mcpTool && linked.agentId == h.agentId

/-- The rows that `MIRROR_FILTER` leaves out. -/
def mirrorFilter (t : Requests) (h : HitlRequest) : Bool :=
  h.origin.conversational && (linkText h.question).any fun link =>
    matchesUuid link && t.rows.any (filterTarget h link)

def listPendingFor (t : Requests) (identity : HitlIdentity) : List HitlRequest :=
  (t.rows.filter fun h => h.status == .pending &&
    (identity.isSuperuser || h.ownerUserId == identity.userId) && !mirrorFilter t h).insertionSort
      fun a b => oldestFirst a b

/-! ## The row that a chat shows -/

/-- The row of the gateway in place of its mirror; the task and the chat stay those of the
mirror. -/
def resolveDisplayRow (row : HitlRequest) (callerOwnerId : Uuid) : Prog HitlRequest :=
  if !row.origin.conversational then pure row
  else
    match (linkText row.question).bind Uuid.parseStr with
    | none => pure row
    | some linkedId => do
      match ← attempt (get linkedId) with
      | .ok (some linked) =>
        if isValidMcpMirrorLink linked callerOwnerId row.agentId then
          pure { row with id := linked.id, kind := linked.kind, question := linked.question }
        else pure row
      | _ => pure row

/-! ## The four answers -/

/-- What becomes of the state when a program runs on its own and no command fails. -/
def State.carryOut {A : Type} (s : State) : Prog A → Except HitlError A × State
  | .ret a => (.ok a, s)
  | .fail e => (.error e, s)
  | .call cmd k => (s.exec cmd .done).2.carryOut (k (s.exec cmd .done).1)

/-- The lists leave the first row out because of the second one. -/
def Hides (m r : HitlRequest) : Prop :=
  m.origin.conversational = true ∧ ∃ link, linkText m.question = some link ∧
    matchesUuid link = true ∧ filterTarget m link r = true

/-- A pending row is missing in the list of those who may see it because of such a row. -/
theorem not_mem_listPendingFor {t : Requests} {m : HitlRequest} {identity : HitlIdentity}
    (hm : m ∈ t.rows) (hpe : m.status = .pending)
    (hsee : identity.isSuperuser = true ∨ m.ownerUserId = identity.userId) :
    m ∉ listPendingFor t identity ↔ ∃ r ∈ t.rows, Hides m r := by
  have hfil : mirrorFilter t m = true ↔ ∃ r ∈ t.rows, Hides m r := by
    simp only [mirrorFilter, Hides, and_eq_true, Option.any_eq_true, List.any_eq_true]
    constructor
    · rintro ⟨hco, link, hli, hmat, r, hr, htgt⟩
      exact ⟨r, hr, hco, link, hli, hmat, htgt⟩
    · rintro ⟨r, hr, hco, link, hli, hmat, htgt⟩
      exact ⟨hco, link, hli, hmat, r, hr, htgt⟩
  rw [← hfil]
  simp [listPendingFor, hm, hpe, hsee]

/-- A chat shows the second row in place of the first one. -/
def Shows (s : State) (m r : HitlRequest) : Prop :=
  m.id ≠ r.id ∧ ∃ row s', s.carryOut (resolveDisplayRow m m.ownerUserId) = (.ok row, s') ∧
    row.id = r.id

/-- The decision about the second row is copied to the first one. -/
def Finds (s : State) (m r : HitlRequest) : Prop :=
  (s.carryOut (findLinkedDirectChatRow r.id r.ownerUserId r.agentId)).1 = .ok (some m)

/-- The stream of the first row is also found under the id of the second one, once it is
delivered. -/
def Aliases (s : State) (m r : HitlRequest) : Prop :=
  (r.id, m.id) ∈ (State.carryOut { s with aliases := [] } (aliasMirror m)).2.aliases

/-- The first row is the pause of a task, and names the second one, of the same user and agent. -/
structure Names (m r : HitlRequest) : Prop where
  conversational : m.origin.conversational = true
  link : linkText m.question = some (Uuid.toStr r.id)
  owner : m.ownerUserId = r.ownerUserId
  agent : m.agentId = r.agentId

/-- The text is written as `Uuid.toStr` writes it, or is not an id. -/
def PlainLink (m : HitlRequest) : Prop :=
  ∀ link id, linkText m.question = some link → Uuid.parseStr link = some id → link = Uuid.toStr id

variable {s : State} {t : Requests} {m r : HitlRequest}

/-! ### The lists -/

theorem matchesUuid_toStr {id : Uuid} : matchesUuid (toStr id) = true := by
  have hhex : ∀ start count, (digits id start count).all Str.isHexDigit = true :=
    fun start count => all_eq_true.2 fun c => isHexDigit_of_mem_digits
  simp [matchesUuid, toStr, drop_append, length_digits, drop_of_length_le, hhex]

/-- What looks like an id is read like one. -/
theorem parseStr_of_matches {link : Str} (hmat : matchesUuid link = true) :
    parseStr link = parseHyphenated link := by
  simp only [matchesUuid, and_eq_true, beq_iff_eq] at hmat
  exact parseStr_eq_parseHyphenated hmat.1.1.1.1.1

theorem hides_iff (hpla : PlainLink m) :
    Hides m r ↔ Names m r ∧ r.origin = .mcpTool ∧ r.status = .pending := by
  simp only [Hides, filterTarget, and_eq_true, beq_iff_eq]
  constructor
  · rintro ⟨hco, link, hli, hmat, ⟨⟨⟨hid, hpe⟩, hown⟩, horg⟩, hag⟩
    have hpar : parseStr link = some r.id := (parseStr_of_matches hmat).trans hid.symm
    rw [hpla link r.id hli hpar] at hli
    exact ⟨⟨hco, hli, hown.symm, hag.symm⟩, horg, hpe⟩
  · rintro ⟨hnm, horg, hpe⟩
    exact ⟨hnm.conversational, _, hnm.link, matchesUuid_toStr,
      ⟨⟨⟨(parseHyphenated_toStr r.id).symm, hpe⟩, hnm.owner.symm⟩, horg⟩,
      hnm.agent.symm⟩

/-! ### The row that is shown, and the alias -/

/-- The row that the text names, if it is a row that the mirror may name. -/
def linkedRow (s : State) (m : HitlRequest) : Option HitlRequest :=
  ((linkText m.question).bind Uuid.parseStr).bind fun id =>
    (s.row id).filter fun linked => isValidMcpMirrorLink linked m.ownerUserId m.agentId

theorem linkedRow_eq_some : linkedRow s m = some r ↔
    (linkText m.question).bind parseStr = some r.id ∧ r ∈ s.db.requests.rows ∧
      isValidMcpMirrorLink r m.ownerUserId m.agentId = true := by
  simp only [linkedRow, bind_eq_some_iff, filter_eq_some_iff]
  constructor
  · rintro ⟨id, hid, hrow, hval⟩
    obtain ⟨hmem, rfl⟩ := get_eq_some.1 hrow
    exact ⟨hid, hmem, hval⟩
  · rintro ⟨hid, hmem, hval⟩
    exact ⟨r.id, hid, get_eq_some.2 ⟨hmem, rfl⟩, hval⟩

theorem carryOut_get {A : Type} (s : State) (id : Uuid)
    (f : Except HitlError (Option HitlRequest) → Prog A) :
    s.carryOut (attempt (get id) >>= f) = s.carryOut (f (.ok (s.row id))) := rfl

theorem carryOut_resolveDisplayRow (hco : m.origin.conversational = true) :
    s.carryOut (resolveDisplayRow m m.ownerUserId) = (.ok ((linkedRow s m).elim m fun linked =>
        { m with id := linked.id, kind := linked.kind, question := linked.question }), s) := by
  rw [resolveDisplayRow, hco, linkedRow]
  cases (linkText m.question).bind parseStr with
  | none => rfl
  | some id =>
    change s.carryOut (attempt (get id) >>= _) = _
    rw [carryOut_get, bind_some]
    cases s.row id with
    | none => rfl
    | some linked =>
      rw [filter_some]
      dsimp only
      split <;> rfl

theorem carryOut_aliasMirror (s : State) (m : HitlRequest) : s.carryOut (aliasMirror m) =
      (.ok (), (linkedRow s m).elim s fun linked =>
        { s with aliases := (linked.id, m.id) :: s.aliases }) := by
  rw [aliasMirror, linkedRow]
  cases (linkText m.question).bind parseStr with
  | none => rfl
  | some id =>
    rw [carryOut_get, bind_some]
    cases hrow : s.row id with
    | none => rfl
    | some linked =>
      obtain rfl : linked.id = id := key_of_get hrow
      rw [filter_some]
      dsimp only
      split <;> rfl

theorem linkedRow_iff (hpla : PlainLink m) (hr : r ∈ s.db.requests.rows)
    (hco : m.origin.conversational = true) :
    linkedRow s m = some r ↔ Names m r ∧ r.origin = .mcpTool ∧ r.status = .pending := by
  simp only [linkedRow_eq_some, bind_eq_some_iff, isValidMcpMirrorLink, and_eq_true, beq_iff_eq]
  constructor
  · rintro ⟨⟨link, hli, hpar⟩, -, ⟨⟨hown, horg⟩, hpe⟩, hag⟩
    rw [hpla link r.id hli hpar] at hli
    exact ⟨⟨hco, hli, hown.symm, hag.symm⟩, horg, hpe⟩
  · rintro ⟨hnm, horg, hpe⟩
    exact ⟨⟨_, hnm.link, parseStr_toStr r.id⟩, hr, ⟨⟨hnm.owner.symm, horg⟩, hpe⟩, hnm.agent.symm⟩

theorem eq_of_id {a b : HitlRequest} (ha : a ∈ t.rows) (hb : b ∈ t.rows) (hid : a.id = b.id) :
    a = b :=
  some.inj ((get_eq_some.2 ⟨ha, hid⟩).symm.trans (get_eq_some.2 ⟨hb, rfl⟩))

/-- A row is shown in place of another one if it is the row that this one names. -/
theorem shows_iff (hm : m ∈ s.db.requests.rows) (hr : r ∈ s.db.requests.rows) :
    Shows s m r ↔ m.origin.conversational = true ∧ linkedRow s m = some r := by
  constructor
  · rintro ⟨hne, row, s', hrun, hid⟩
    cases hco : m.origin.conversational with
    | false =>
      simp only [resolveDisplayRow, hco] at hrun
      cases hrun
      exact absurd hid hne
    | true =>
      rw [carryOut_resolveDisplayRow hco] at hrun
      cases hlk : linkedRow s m with
      | none =>
        rw [hlk] at hrun
        cases hrun
        exact absurd hid hne
      | some linked =>
        rw [hlk] at hrun
        cases hrun
        exact ⟨rfl, congrArg some (eq_of_id (linkedRow_eq_some.1 hlk).2.1 hr hid)⟩
  · rintro ⟨hco, hlk⟩
    have hval := (linkedRow_eq_some.1 hlk).2.2
    simp only [isValidMcpMirrorLink, and_eq_true, beq_iff_eq] at hval
    refine ⟨fun hid => ?_, _, s, carryOut_resolveDisplayRow hco, ?_⟩
    · rw [eq_of_id hm hr hid, hval.1.1.2] at hco
      cases hco
    · rw [hlk]
      rfl

theorem aliases_iff (hr : r ∈ s.db.requests.rows) : Aliases s m r ↔ linkedRow s m = some r := by
  rw [Aliases, carryOut_aliasMirror]
  change _ ↔ linkedRow { s with aliases := [] } m = some r
  cases hlk : linkedRow { s with aliases := [] } m with
  | none => exact ⟨nofun, nofun⟩
  | some linked =>
    have hmem := (linkedRow_eq_some.1 hlk).2.1
    constructor
    · intro h
      rcases mem_cons.1 h with h | h
      · exact congrArg some (eq_of_id hmem hr (Prod.mk.inj h).1.symm)
      · cases h
    · intro h
      cases h
      exact mem_cons_self

/-! ### The mirror that gets the decision -/

instance : Std.Total fun a b => newestFirst a b = true :=
  ⟨fun a b => by simpa only [newestFirst, decide_eq_true_eq] using le_total b.createdAt a.createdAt⟩

instance : IsTrans HitlRequest fun a b => newestFirst a b = true :=
  ⟨fun a b c hab hbc => by
    simp only [newestFirst, decide_eq_true_eq] at hab hbc ⊢
    exact hbc.trans hab⟩

theorem mirrors_iff : mirrors r.id r.ownerUserId r.agentId m = true ↔
    Names m r ∧ m.status = .pending := by
  simp only [mirrors, and_eq_true, beq_iff_eq]
  constructor
  · rintro ⟨⟨⟨⟨hco, hpe⟩, hown⟩, hag⟩, hli⟩
    exact ⟨⟨hco, hli, hown, hag⟩, hpe⟩
  · rintro ⟨hnm, hpe⟩
    exact ⟨⟨⟨⟨hnm.conversational, hpe⟩, hnm.owner⟩, hnm.agent⟩, hnm.link⟩

theorem finds_iff : Finds s m r ↔
    s.db.requests.firstBy (mirrors r.id r.ownerUserId r.agentId) newestFirst = some m := by
  change ok _ = ok _ ↔ _
  rw [ok.injEq]
  rfl

theorem newest_of_finds (hfin : Finds s m r) : Names m r ∧ m.status = .pending ∧
    ∀ m' ∈ s.db.requests.rows, Names m' r → m'.status = .pending → m'.createdAt ≤ m.createdAt := by
  rw [finds_iff] at hfin
  obtain ⟨hnm, hpe⟩ := mirrors_iff.1 (firstBy_spec hfin).2
  refine ⟨hnm, hpe, fun m' hm' hnm' hpe' => ?_⟩
  rcases firstBy_le hfin hm' (mirrors_iff.2 ⟨hnm', hpe'⟩) with rfl | hle
  · exact le_rfl
  · exact of_decide_eq_true hle

theorem finds_of_newest (hm : m ∈ s.db.requests.rows) (hnm : Names m r) (hpe : m.status = .pending)
    (hnew : ∀ m' ∈ s.db.requests.rows, Names m' r → m'.status = .pending → m' ≠ m →
      m'.createdAt < m.createdAt) : Finds s m r := by
  obtain ⟨m', hfst⟩ : ∃ m', s.db.requests.firstBy (mirrors r.id r.ownerUserId r.agentId)
      newestFirst = some m' := exists_firstBy hm (mirrors_iff.2 ⟨hnm, hpe⟩)
  obtain ⟨hmem, hmir⟩ := firstBy_spec hfst
  obtain ⟨hnm', hpe'⟩ := mirrors_iff.1 hmir
  have hle := (newest_of_finds (finds_iff.2 hfst)).2.2 m hm hnm hpe
  by_cases hne : m' = m
  · rw [finds_iff, hfst, hne]
  · exact absurd (hnew m' hmem hnm' hpe' hne) (not_lt.2 hle)

/-! ## The result -/

/-- **The four places agree about the link.** For any two rows of any database, and any text that is
written as `Uuid.toStr` writes it or is no id at all: the lists leave the first row out because of
the second one, and a chat shows the second one in place of the first one, if and only if the first
row names the second one and this is a pending row of the gateway. While the second one is pending,
the same holds for the alias of a row that is delivered, which has a task. The decision about the
second row is copied to the first one only if it names the second one, is pending and no such row is
newer, and it is copied if it is the newest one. -/
theorem one_link (s : State) (m r : HitlRequest) (hm : m ∈ s.db.requests.rows)
    (hr : r ∈ s.db.requests.rows) (hplain : PlainLink m) :
    (∀ identity : HitlIdentity, m.status = .pending →
      (identity.isSuperuser = true ∨ m.ownerUserId = identity.userId) →
      (m ∉ listPendingFor s.db.requests identity ↔ ∃ r' ∈ s.db.requests.rows, Hides m r')) ∧
    (Hides m r ↔ Names m r ∧ r.origin = .mcpTool ∧ r.status = .pending) ∧
    (Shows s m r ↔ Names m r ∧ r.origin = .mcpTool ∧ r.status = .pending) ∧
    (m.origin.conversational = true → r.status = .pending →
      (Aliases s m r ↔ Names m r ∧ r.origin = .mcpTool)) ∧
    (Finds s m r → Names m r ∧ m.status = .pending ∧ ∀ m' ∈ s.db.requests.rows, Names m' r →
      m'.status = .pending → m'.createdAt ≤ m.createdAt) ∧
    (Names m r → m.status = .pending → (∀ m' ∈ s.db.requests.rows, Names m' r →
      m'.status = .pending → m' ≠ m → m'.createdAt < m.createdAt) → Finds s m r) := by
  refine ⟨fun identity => not_mem_listPendingFor hm, hides_iff hplain, ?_, fun hco hpe => ?_,
    newest_of_finds, finds_of_newest hm⟩
  · rw [shows_iff hm hr]
    constructor
    · rintro ⟨hco, hlk⟩
      exact (linkedRow_iff hplain hr hco).1 hlk
    · intro h
      exact ⟨h.1.conversational, (linkedRow_iff hplain hr h.1.conversational).2 h⟩
  · rw [aliases_iff hr, linkedRow_iff hplain hr hco]
    simp [hpe]

/-- Of a row of the gateway and its mirror, the mirror is the newest one. -/
theorem newest_beside (hrows : s.db.requests.rows = [r, m]) (horg : r.origin = .mcpTool) :
    ∀ m' ∈ s.db.requests.rows, Names m' r → m'.status = .pending → m' ≠ m →
      m'.createdAt < m.createdAt := by
  intro m' hm' hnm' _ hne
  rw [hrows] at hm'
  rcases mem_pair.1 hm' with rfl | rfl
  · have hco := hnm'.conversational
    rw [horg] at hco
    cases hco
  · exact absurd rfl hne

theorem waiting_linked : Hides pausedTask heldCall ∧ Shows waiting pausedTask heldCall ∧
    Aliases waiting pausedTask heldCall ∧ Finds waiting pausedTask heldCall := by
  have hnm : Names pausedTask heldCall := ⟨rfl, by decide +kernel, rfl, rfl⟩
  have hpla : PlainLink pausedTask := by
    intro link id hli hpar
    obtain rfl : link = toStr 1 := some.inj (hli.symm.trans hnm.link)
    rw [parseStr_toStr] at hpar
    rw [some.inj hpar]
  obtain ⟨-, hhid, hsho, hali, -, hfin⟩ :=
    one_link waiting pausedTask heldCall (by simp [waiting]) (by simp [waiting]) hpla
  have hall : Names pausedTask heldCall ∧ heldCall.origin = .mcpTool ∧ heldCall.status = .pending :=
    ⟨hnm, rfl, rfl⟩
  exact ⟨hhid.2 hall, hsho.2 hall, (hali rfl rfl).2 ⟨hnm, rfl⟩,
    hfin hnm rfl (newest_beside rfl rfl)⟩

def agreedCall : HitlRequest :=
  { heldCall with status := .resolved, humanResponse := some (.object []), resolvedAt := some 300 }

/-- The call is decided and the task still waits. -/
def decidedCall : State where
  db := { requests := ⟨[agreedCall, pausedTask], by decide +kernel, by decide +kernel,
            by decide +kernel⟩
          grants := [] }
  aliases := []
  world := sampleWorld

/-- When a row of the gateway has been decided, its mirror is found, and for the lists and the chat
it is no mirror any more. -/
theorem decided_call_linked :
    Names pausedTask agreedCall ∧ Finds decidedCall pausedTask agreedCall ∧
      ¬ Hides pausedTask agreedCall ∧ ¬ Shows decidedCall pausedTask agreedCall := by
  have hnm : Names pausedTask agreedCall := ⟨rfl, by decide +kernel, rfl, rfl⟩
  refine ⟨hnm, ?_, ?_, ?_⟩
  · exact finds_of_newest (by simp [decidedCall]) hnm rfl (newest_beside rfl rfl)
  · rintro ⟨-, link, -, -, htgt⟩
    simp [filterTarget, agreedCall] at htgt
  · rw [shows_iff (by simp [decidedCall]) (by simp [decidedCall]), linkedRow_eq_some]
    rintro ⟨-, -, -, hval⟩
    cases hval

end Nasiko.Hitl
