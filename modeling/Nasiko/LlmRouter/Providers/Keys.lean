import Nasiko.Json.Integers
import Nasiko.LlmRouter.Providers.Fallback

/-!
# Where keys are sent to

**Theorem (`keys_kept_iff`).** Every request of a call carries the key of the primary configuration
to the endpoint of the primary, or the key of the platform for a provider to the endpoint of this
provider, exactly if the primary does not have both the name of a provider that the router knows and
another endpoint (unless its key is that of the platform anyway).

The endpoint is chosen from the name of the provider (`providerFor`), and the key comes with the
configuration. So it is shown which configurations are tried (`mem_buildAttempts`), that a change of
a parameter leaves the key and the provider alone (`tryFixParam_spec`), and thus what is sent
(`sent_of_mem`).
-/

namespace Nasiko.LlmRouter.Providers

open List Option

/-! ## Endpoints -/

section

variable {F : Type}

/-- The endpoint of a provider that the router knows. -/
def builtinBase (cfg : GatewayConfig) (provider : Str) : Option Str :=
  if provider = "openai" then some cfg.openaiApiBase
  else if provider = "anthropic" then some cfg.anthropicApiBase
  else if provider = "gemini" then some cfg.geminiApiBase
  else if provider = "openrouter" then some cfg.openrouterApiBase
  else none

variable {cfg : GatewayConfig}

theorem platformKeyFor_of_unknown {provider : Str} (h : builtinBase cfg provider = none) :
    cfg.platformKeyFor provider = [] := by
  unfold builtinBase at h
  split_ifs at h with h₁ h₂ h₃ h₄
  rw [GatewayConfig.platformKeyFor, if_neg h₁, if_neg h₂, if_neg h₃, if_neg h₄]

theorem providerFor_known (resolved : ResolvedConfig F) {base : Str}
    (h : builtinBase cfg resolved.provider = some base) :
    ∃ client, providerFor resolved cfg = .ok client ∧ client.base = base := by
  unfold builtinBase at h
  unfold providerFor
  split_ifs at h ⊢
  all_goals exact ⟨_, rfl, some.inj h⟩

theorem providerFor_unknown {resolved : ResolvedConfig F} {client : ProviderClient}
    (h : builtinBase cfg resolved.provider = none) (hcli : providerFor resolved cfg = .ok client) :
    resolved.customEndpoint.map (·.baseUrl) = some client.base := by
  unfold builtinBase at h
  split_ifs at h with h₁ h₂ h₃ h₄
  rw [providerFor, if_neg h₁, if_neg h₂, if_neg h₃, if_neg h₄] at hcli
  cases hcus : resolved.customEndpoint with
  | none =>
    rw [hcus] at hcli
    cases hcli
  | some endpoint =>
    rw [hcus] at hcli
    dsimp only at hcli
    split_ifs at hcli
    all_goals
      cases hcli
      rfl

/-! ## Attempts -/

/-- An attempt that is like the primary, as far as provider, key and endpoint are concerned. -/
structure LikePrimary (primary attempt : ResolvedConfig F) : Prop where
  provider : attempt.provider = primary.provider
  apiKey : attempt.apiKey = primary.apiKey
  customEndpoint : attempt.customEndpoint = primary.customEndpoint

structure OnPlatform (cfg : GatewayConfig) (attempt : ResolvedConfig F) : Prop where
  apiKey : attempt.apiKey = cfg.platformKeyFor attempt.provider
  hasKey : attempt.apiKey ≠ []

theorem mem_buildAttempts {primary attempt : ResolvedConfig F}
    (h : attempt ∈ buildAttempts primary cfg) :
    LikePrimary primary attempt ∨ OnPlatform cfg attempt := by
  rcases mem_cons.1 h with rfl | h
  · exact .inl ⟨rfl, rfl, rfl⟩
  · obtain ⟨entry, -, hent⟩ := mem_filterMap.1 h
    unfold fallbackAttempt at hent
    by_cases hsa : (splitPrefixed entry primary.provider).1 = primary.provider
    · simp only [hsa, reduceIte] at hent
      split at hent
      · cases hent
      · cases hent
        exact .inl ⟨rfl, rfl, rfl⟩
    · simp only [hsa, reduceIte] at hent
      split at hent
      · cases hent
      · rename_i hkey
        cases hent
        exact .inr ⟨rfl, fun hnone => hkey (isEmpty_iff.2 hnone)⟩

end

/-! ## Changes of parameters -/

section

variable {N F : Type}

/-- The configurations differ in parameters only. -/
structure AlikeCall (cfg cfg' : ResolvedConfig F) : Prop where
  apiKey : cfg'.apiKey = cfg.apiKey
  model : cfg'.model = cfg.model

variable {w w' : Work N F} {client : ProviderClient} {attempt : ResolvedConfig F}
  {sent : List (Sent N F)} {param : Str}

theorem alikeCall_stripParam (h : stripParam w param = some w') : AlikeCall w.cfg w'.cfg := by
  unfold stripParam at h
  split_ifs at h
  all_goals
    cases h
    exact ⟨rfl, rfl⟩

variable [SerdeJson N F] [AsI64 N] [BEq F]

theorem alikeCall_applyParam {value : Json N} (h : applyParam w param value = some w') :
    AlikeCall w.cfg w'.cfg := by
  unfold applyParam at h
  split_ifs at h
  · obtain ⟨t, -, ht⟩ := bind_eq_some_iff.1 h
    split_ifs at ht
    cases ht
    exact ⟨rfl, rfl⟩
  · obtain ⟨n, -, hn⟩ := bind_eq_some_iff.1 h
    split_ifs at hn
    cases hn
    exact ⟨rfl, rfl⟩
  · cases h
    exact ⟨rfl, rfl⟩

/-- A change of a parameter leaves the key and the model alone; it is counted, and there is a
limit. -/
theorem tryFixParam_spec {remedies : Remedies N} {e : ProviderError}
    (h : tryFixParam remedies client e w = some w') :
    AlikeCall w.cfg w'.cfg ∧ w'.applied.length = w.applied.length + 1 ∧
      w'.applied.length ≤ maxParamFixes := by
  unfold tryFixParam at h
  split at h
  · cases h
  have hlen : ∀ fix : Str × Json N, (w.applied ++ [fix]).length ≤ maxParamFixes := by
    intro fix
    rw [length_append, length_singleton]
    omega
  split at h
  · split at h
    · cases h
    · obtain ⟨w₁, hw₁, rfl⟩ := map_eq_some_iff.1 h
      have hsa := alikeCall_stripParam hw₁
      exact ⟨hsa, length_append, hlen _⟩
  · split at h
    · cases h
    · split at h
      · cases h
      · obtain ⟨w₁, hw₁, rfl⟩ := map_eq_some_iff.1 h
        have hsa := alikeCall_applyParam hw₁
        exact ⟨hsa, length_append, hlen _⟩

/-! ## What is sent -/

variable {α : Type} (remedies : Remedies N) (answer : List (Sent N F) → Except ProviderError α)
  (streaming : Bool) {cfg : GatewayConfig}

/-- What holds of the first request of an attempt, and is kept by every change, holds in the end. -/
theorem attemptLoop_rule (client : ProviderClient) {P : Work N F → List (Sent N F) → Prop}
    (hstep : ∀ w w' e sent, P w sent → answer sent = .error e →
      tryFixParam remedies client e w = some w' →
      P w' (sent ++ [⟨streaming, client, w'.req, w'.cfg⟩]))
    (fixes : Nat) (w : Work N F) (sent : List (Sent N F))
    (h : P w (sent ++ [⟨streaming, client, w.req, w.cfg⟩])) :
    ∃ w', P w' (attemptLoop remedies answer streaming client fixes w sent).2 := by
  induction fixes generalizing w sent with
  | zero =>
    unfold attemptLoop
    dsimp only
    split <;> exact ⟨w, h⟩
  | succ fixes ih =>
    unfold attemptLoop
    dsimp only
    cases hans : answer (sent ++ [⟨streaming, client, w.req, w.cfg⟩]) with
    | ok resp => exact ⟨w, h⟩
    | error e =>
      dsimp only
      cases hfix : tryFixParam remedies client e w with
      | none => exact ⟨w, h⟩
      | some w' => exact ih w' _ (hstep w w' e _ h hans hfix)

theorem attemptLoop_sent (client : ProviderClient) (fixes : Nat) (w : Work N F)
    (sent : List (Sent N F)) :
    ∃ s ss, (attemptLoop remedies answer streaming client fixes w sent).2 = sent ++ s :: ss ∧
      ∀ s' ∈ s :: ss, s'.client = client ∧ AlikeCall w.cfg s'.cfg := by
  let P (w' : Work N F) (sent' : List (Sent N F)) : Prop := AlikeCall w.cfg w'.cfg ∧
    ∃ s ss, sent' = sent ++ s :: ss ∧ ∀ s' ∈ s :: ss, s'.client = client ∧ AlikeCall w.cfg s'.cfg
  have hst : P w (sent ++ [⟨streaming, client, w.req, w.cfg⟩]) :=
    ⟨⟨rfl, rfl⟩, _, [], rfl, forall_mem_singleton.2 ⟨rfl, rfl, rfl⟩⟩
  obtain ⟨-, -, h⟩ := attemptLoop_rule remedies answer streaming client (P := P) (by
    rintro w₁ w₂ e _ ⟨hsa, s, ss, rfl, hall⟩ - hfix
    -- The request is sent again, with the same key and model.
    have hfxd := (tryFixParam_spec hfix).1
    have hsa' : AlikeCall w.cfg w₂.cfg :=
      ⟨hfxd.apiKey.trans hsa.apiKey, hfxd.model.trans hsa.model⟩
    refine ⟨hsa', s, ss ++ [_], append_assoc _ _ _, ?_⟩
    exact forall_mem_append.2 ⟨hall, forall_mem_singleton.2 ⟨rfl, hsa'⟩⟩) fixes w sent hst
  exact h

def SentFor (cfg : GatewayConfig) (attempt : ResolvedConfig F) (s : Sent N F) : Prop :=
  providerFor attempt cfg = .ok s.client ∧ AlikeCall attempt s.cfg

variable (req : ChatRequest N F) {s : Sent N F}

/-- An attempt that has a client: its requests, and then the rest. -/
theorem executeFrom_client (hcli : providerFor attempt cfg = .ok client)
    (rest : List (ResolvedConfig F)) (last : Option GatewayError) (sent : List (Sent N F)) :
    ∃ s ss, (∀ s' ∈ s :: ss, SentFor cfg attempt s') ∧
      ((executeFrom remedies answer streaming cfg req (attempt :: rest) last sent).2 =
          sent ++ s :: ss ∨
        ∃ e, executeFrom remedies answer streaming cfg req (attempt :: rest) last sent =
          executeFrom remedies answer streaming cfg req rest (some e) (sent ++ s :: ss)) := by
  obtain ⟨s, ss, hse, hall⟩ :=
    attemptLoop_sent remedies answer streaming client maxParamFixes ⟨req, attempt, []⟩ sent
  refine ⟨s, ss, fun s' hs' => ⟨hcli.trans (congrArg _ (hall s' hs').1.symm), (hall s' hs').2⟩, ?_⟩
  rw [executeFrom, hcli]
  dsimp only
  cases hloop : attemptLoop remedies answer streaming client maxParamFixes ⟨req, attempt, []⟩
    sent with
  | mk result sent' =>
    rw [hloop] at hse
    cases hse
    cases result with
    | ok resp => exact .inl rfl
    | error e => exact .inr ⟨_, rfl⟩

/-- **Every request is sent for one of the attempts.** -/
theorem sent_of_mem {attempts : List (ResolvedConfig F)} {last : Option GatewayError}
    (h : s ∈ (executeFrom remedies answer streaming cfg req attempts last sent).2) :
    s ∈ sent ∨ ∃ attempt ∈ attempts, SentFor cfg attempt s := by
  induction attempts generalizing last sent with
  | nil => exact .inl h
  | cons attempt rest ih =>
    have hrest : ∀ {last sent},
      s ∈ (executeFrom remedies answer streaming cfg req rest last sent).2 →
        s ∈ sent ∨ ∃ a ∈ attempt :: rest, SentFor cfg a s := fun h =>
      (ih h).imp_right fun ⟨a, ha, hs⟩ => ⟨a, mem_cons_of_mem _ ha, hs⟩
    cases hcli : providerFor attempt cfg with
    | error e =>
      rw [executeFrom, hcli] at h
      exact hrest h
    | ok client =>
      obtain ⟨s₀, ss, hall, hse | ⟨e, hse⟩⟩ :=
        executeFrom_client remedies answer streaming req hcli rest last sent
      · rw [hse] at h
        exact (mem_append.1 h).imp_right fun hs => ⟨attempt, mem_cons_self, hall s hs⟩
      · rw [hse] at h
        rcases hrest h with h | h
        · exact (mem_append.1 h).imp_right fun hs => ⟨attempt, mem_cons_self, hall s hs⟩
        · exact .inr h

theorem mem_executeFrom (attempts : List (ResolvedConfig F)) (last : Option GatewayError)
    (h : s ∈ sent) : s ∈ (executeFrom remedies answer streaming cfg req attempts last sent).2 := by
  induction attempts generalizing last sent with
  | nil => exact h
  | cons attempt rest ih =>
    cases hcli : providerFor attempt cfg with
    | error e =>
      rw [executeFrom, hcli]
      exact ih _ h
    | ok client =>
      obtain ⟨s₀, ss, -, hse | ⟨e, hse⟩⟩ :=
        executeFrom_client remedies answer streaming req hcli rest last sent
      · rw [hse]
        exact mem_append_left _ h
      · rw [hse]
        exact ih _ (mem_append_left _ h)

theorem exists_sent (hcli : providerFor attempt cfg = .ok client) (rest : List (ResolvedConfig F)) :
    ∃ s ∈ (executeFrom remedies answer streaming cfg req (attempt :: rest) none []).2,
      SentFor cfg attempt s := by
  obtain ⟨s, ss, hall, hse | ⟨e, hse⟩⟩ :=
    executeFrom_client remedies answer streaming req hcli rest none []
  · rw [hse]
    exact ⟨s, mem_append_right _ mem_cons_self, hall s mem_cons_self⟩
  · rw [hse]
    exact ⟨s, mem_executeFrom remedies answer streaming req rest _
      (mem_append_right _ mem_cons_self), hall s mem_cons_self⟩

end

/-! ## The result -/

section

variable {N F : Type} (cfg : GatewayConfig) (primary : ResolvedConfig F)

/-- The endpoint of a configuration: its own, or that of its provider. -/
def ownEndpoint : Option Str :=
  (primary.customEndpoint.map (·.baseUrl)).or (builtinBase cfg primary.provider)

/-- The request carries the key of the primary to the endpoint of the primary, or the key of the
platform for a provider to the endpoint of this provider. -/
def Proper (s : Sent N F) : Prop :=
  (s.apiKey = primary.apiKey ∧ ownEndpoint cfg primary = some s.client.base) ∨
    ∃ provider, builtinBase cfg provider = some s.client.base ∧
      s.apiKey = cfg.platformKeyFor provider

/-- If the primary has the name of a provider that the router knows and an endpoint of its own, then
this is the endpoint of that provider, or its key is the key of the platform there. -/
def EndpointKnown : Prop :=
  ∀ endpoint base, primary.customEndpoint = some endpoint →
    builtinBase cfg primary.provider = some base →
    endpoint.baseUrl = base ∨ ∃ provider, builtinBase cfg provider = some base ∧
      primary.apiKey = cfg.platformKeyFor provider

variable {cfg : GatewayConfig} {primary attempt : ResolvedConfig F} {s : Sent N F}

theorem proper_of_likePrimary (hlike : LikePrimary primary attempt)
    (hse : SentFor cfg attempt s) (h : EndpointKnown cfg primary) : Proper cfg primary s := by
  obtain ⟨hcli, hkey, -⟩ := hse
  rw [hlike.apiKey] at hkey
  cases hba : builtinBase cfg primary.provider with
  | none =>
    have hcus := providerFor_unknown (by rw [hlike.provider]; exact hba) hcli
    rw [hlike.customEndpoint] at hcus
    refine .inl ⟨hkey, ?_⟩
    rw [ownEndpoint, hcus]
    rfl
  | some base =>
    obtain ⟨client, hcli', rfl⟩ :=
      providerFor_known attempt (by rw [hlike.provider]; exact hba)
    cases hcli.symm.trans hcli'
    cases hcus : primary.customEndpoint with
    | none =>
      refine .inl ⟨hkey, ?_⟩
      rw [ownEndpoint, hcus, hba]
      rfl
    | some endpoint =>
      rcases h endpoint _ hcus hba with hsa | ⟨provider, hpro, hpla⟩
      · refine .inl ⟨hkey, ?_⟩
        rw [ownEndpoint, hcus, ← hsa]
        rfl
      · exact .inr ⟨provider, hpro, hkey.trans hpla⟩

theorem proper_of_onPlatform (hpla : OnPlatform cfg attempt) (hse : SentFor cfg attempt s) :
    Proper cfg primary s := by
  obtain ⟨hcli, hkey, -⟩ := hse
  cases hba : builtinBase cfg attempt.provider with
  | none =>
    -- There is no key of the platform for a provider that the router does not know.
    exact absurd (hpla.apiKey.trans (platformKeyFor_of_unknown hba)) hpla.hasKey
  | some base =>
    obtain ⟨client, hcli', rfl⟩ := providerFor_known attempt hba
    cases hcli.symm.trans hcli'
    exact .inr ⟨attempt.provider, hba, hkey.trans hpla.apiKey⟩

variable [SerdeJson N F] [AsI64 N] [BEq F] {α : Type}

theorem proper_iff {remedies : Remedies N} {answer : List (Sent N F) → Except ProviderError α}
    {streaming : Bool} {req : ChatRequest N F} :
    (∀ s ∈ (executeFrom remedies answer streaming cfg req (buildAttempts primary cfg) none []).2,
      Proper cfg primary s) ↔ EndpointKnown cfg primary := by
  constructor
  · intro hall endpoint base hcus hba
    obtain ⟨client, hcli, rfl⟩ := providerFor_known { primary with fallbackModels := [] } hba
    obtain ⟨s, hs, hse, hkey, -⟩ := exists_sent remedies answer streaming req hcli
      (primary.fallbackModels.filterMap (fallbackAttempt primary cfg))
    cases hcli.symm.trans hse
    rcases hall s hs with ⟨-, hown⟩ | ⟨provider, hpro, hpla⟩
    · rw [ownEndpoint, hcus] at hown
      exact .inl (some.inj hown)
    · exact .inr ⟨provider, hpro, hkey.symm.trans hpla⟩
  · intro h s hs
    rcases sent_of_mem remedies answer streaming req hs with hs | ⟨attempt, hatt, hse⟩
    · exact absurd hs not_mem_nil
    · rcases mem_buildAttempts hatt with hlike | hpla
      · exact proper_of_likePrimary hlike hse h
      · exact proper_of_onPlatform hpla hse

/-- **Keys are sent to their own endpoints, exactly if a primary with the name of a provider that
the router knows has the endpoint of this provider** (or the key of the platform there). -/
theorem keys_kept_iff (remedies : Remedies N)
    (answer : List (Sent N F) → Except ProviderError (ChatResponse N))
    (answerStream : List (Sent N F) → Except ProviderError (List (Except ProviderError ChatChunk)))
    (cfg : GatewayConfig) (primary : ResolvedConfig F) (req : ChatRequest N F) :
    ((∀ s ∈ (executeChat remedies answer cfg primary req).2, Proper cfg primary s) ↔
      EndpointKnown cfg primary) ∧
    ((∀ s ∈ (executeChatStream remedies answerStream cfg primary req).2, Proper cfg primary s) ↔
      EndpointKnown cfg primary) :=
  ⟨proper_iff, proper_iff⟩

end

/-! ## Samples -/

open Nasiko.Json.Integers

/-- A provider that was registered as `openrouter`. -/
def registeredOpenrouter : ResolvedConfig Int :=
  { provider := "openrouter"
    model := "m"
    litellmModel := "openrouter/m"
    apiKey := "secret"
    fallbackModels := []
    temperature := none
    maxTokens := none
    hasLlmConfig := true
    pinnedModel := none
    tier1Model := none
    tier2Model := none
    tier3Model := none
    platformPaid := false
    customEndpoint := some ⟨"https://gw.example/v1", .openAi⟩
    isCodingAgent := false
    compressEnabled := false }

/-- Its key is sent to another endpoint. -/
theorem key_leaked : ∃ s ∈ (executeChat (N := Int) ⟨fun _ _ => none, fun _ _ => none⟩
        (fun _ => .error (.transport [])) sampleGateway registeredOpenrouter
        ⟨none, [], none, none, none, none, none, []⟩).2,
      s.apiKey = "secret" ∧ s.client.base = "https://openrouter.ai/api/v1" ∧
        ¬ Proper sampleGateway registeredOpenrouter s := by
  refine ⟨_, mem_cons_self, rfl, rfl, ?_⟩
  rintro (⟨-, hown⟩ | ⟨provider, -, hkey⟩)
  · exact absurd hown (by decide)
  · have hnone : sampleGateway.platformKeyFor provider = [] := by
      unfold GatewayConfig.platformKeyFor
      split_ifs <;> rfl
    exact absurd (hkey.trans hnone) (by decide)

end Nasiko.LlmRouter.Providers
