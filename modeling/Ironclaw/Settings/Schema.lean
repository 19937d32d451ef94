import Ironclaw.Lib.Serde

/-!
# The settings

The structs of the settings with their fields, the attributes these have for serde, and their defaults. A struct is
written twice, as in the source: by its fields, and by the value of its `Default`. A path of the file system is its
text.

One field is not serialized, `secrets_master_key_hex`; `Settings` keeps it beside the others.
-/

namespace Ironclaw.Settings

open Serde

/-! ## Fields -/

/-- A field with `#[serde(default)]` or `#[serde(default = "…")]`. -/
def field (name : String) (t : Ty) (default : Json) : Field × Ty := (⟨name.toList, none, some default, false⟩, t)

/-- A field that must be there. -/
def required (name : String) (t : Ty) : Field × Ty := (⟨name.toList, none, none, false⟩, t)

/-- A field with `#[serde(default, alias = "…")]`. -/
def aliased (name aliasName : String) (t : Ty) (default : Json) : Field × Ty :=
  (⟨name.toList, some aliasName.toList, some default, false⟩, t)

/-- A field with `#[serde(default, skip_serializing_if = "Option::is_none")]`. -/
def skipped (name : String) (t : Ty) : Field × Ty := (⟨name.toList, none, some .null, true⟩, .option t)

/-- An optional field, absent by default. -/
def optional (name : String) (t : Ty) : Field × Ty := field name (.option t) .null

/-- A field that is `false` by default. -/
def flag (name : String) : Field × Ty := field name .bool (.bool false)

/-- A field with `#[serde(default = "default_true")]`. -/
def flagTrue (name : String) : Field × Ty := field name .bool (.bool true)

def number (n : Nat) : Json := .num (.int n)

def text (s : String) : Json := .str s.toList

def record (fields : List (String × Json)) : Json := .obj (fields.map fun kv => (kv.1.toList, kv.2))

def u16 : Ty := .uint 16
def u32 : Ty := .uint 32
def u64 : Ty := .uint 64
def usize : Ty := .uint 64
def pathBuf : Ty := .string

/-! ## Providers -/

def customLlmProviderSettings : Ty := .struct [
  required "id" .string,
  required "name" .string,
  required "adapter" .string,
  optional "base_url" .string,
  optional "default_model" .string,
  optional "api_key" .string,
  flag "builtin"]

def llmBuiltinOverride : Ty := .struct [
  skipped "api_key" .string,
  skipped "model" .string,
  skipped "base_url" .string]

def keySource : Ty := .variants ["keychain".toList, "env".toList, "none".toList]

/-! ## Embeddings -/

def defaultEmbeddingsProvider : Json := text "nearai"
def defaultEmbeddingsModel : Json := text "text-embedding-3-small"

def embeddingsSettings : Ty := .struct [
  flag "enabled",
  field "provider" .string defaultEmbeddingsProvider,
  field "model" .string defaultEmbeddingsModel]

def embeddingsDefault : Json := record [
  ("enabled", .bool false),
  ("provider", defaultEmbeddingsProvider),
  ("model", defaultEmbeddingsModel)]

/-! ## Tunnel -/

def tunnelSettings : Ty := .struct [
  optional "public_url" .string,
  optional "provider" .string,
  optional "cf_token" .string,
  optional "ngrok_token" .string,
  optional "ngrok_domain" .string,
  flag "ts_funnel",
  optional "ts_hostname" .string,
  optional "custom_command" .string,
  optional "custom_health_url" .string,
  optional "custom_url_pattern" .string]

def tunnelDefault : Json := record [
  ("public_url", .null),
  ("provider", .null),
  ("cf_token", .null),
  ("ngrok_token", .null),
  ("ngrok_domain", .null),
  ("ts_funnel", .bool false),
  ("ts_hostname", .null),
  ("custom_command", .null),
  ("custom_health_url", .null),
  ("custom_url_pattern", .null)]

/-! ## Channels -/

def channelSettings : Ty := .struct [
  flag "http_enabled",
  optional "http_port" u16,
  optional "http_host" .string,
  flagTrue "gateway_enabled",
  optional "gateway_host" .string,
  optional "gateway_port" u16,
  optional "gateway_auth_token" .string,
  flagTrue "cli_enabled",
  flag "signal_enabled",
  optional "signal_http_url" .string,
  optional "signal_account" .string,
  optional "signal_allow_from" .string,
  optional "signal_allow_from_groups" .string,
  optional "signal_dm_policy" .string,
  optional "signal_group_policy" .string,
  optional "signal_group_allow_from" .string,
  field "wasm_channel_owner_ids" (.map .i64) (record []),
  field "wasm_channels" (.vec .string) (.arr []),
  flagTrue "wasm_channels_enabled",
  optional "wasm_channels_dir" pathBuf]

def channelDefault : Json := record [
  ("http_enabled", .bool false),
  ("http_port", .null),
  ("http_host", .null),
  ("gateway_enabled", .bool true),
  ("gateway_host", .null),
  ("gateway_port", .null),
  ("gateway_auth_token", .null),
  ("cli_enabled", .bool true),
  ("signal_enabled", .bool false),
  ("signal_http_url", .null),
  ("signal_account", .null),
  ("signal_allow_from", .null),
  ("signal_allow_from_groups", .null),
  ("signal_dm_policy", .null),
  ("signal_group_policy", .null),
  ("signal_group_allow_from", .null),
  ("wasm_channel_owner_ids", record []),
  ("wasm_channels", .arr []),
  ("wasm_channels_enabled", .bool true),
  ("wasm_channels_dir", .null)]

/-! ## Heartbeat -/

def defaultHeartbeatInterval : Json := number 1800

def heartbeatSettings : Ty := .struct [
  flag "enabled",
  field "interval_secs" u64 defaultHeartbeatInterval,
  optional "notify_channel" .string,
  optional "notify_user" .string,
  optional "fire_at" .string,
  optional "quiet_hours_start" u32,
  optional "quiet_hours_end" u32,
  optional "timezone" .string]

def heartbeatDefault : Json := record [
  ("enabled", .bool false),
  ("interval_secs", defaultHeartbeatInterval),
  ("notify_channel", .null),
  ("notify_user", .null),
  ("fire_at", .null),
  ("quiet_hours_start", .null),
  ("quiet_hours_end", .null),
  ("timezone", .null)]

/-! ## Agent -/

def defaultAgentName : Json := text "ironclaw"
def defaultMaxParallelJobs : Json := number 5
def defaultJobTimeout : Json := number 3600
def defaultStuckThreshold : Json := number 300
def defaultRepairInterval : Json := number 60
def defaultSessionIdleTimeout : Json := number (7 * 24 * 3600)
def defaultMaxRepairAttempts : Json := number 3
def defaultMaxToolIterations : Json := number 50
def defaultTimezone : Json := text "UTC"

def agentSettings : Ty := .struct [
  field "name" .string defaultAgentName,
  field "max_parallel_jobs" u32 defaultMaxParallelJobs,
  field "job_timeout_secs" u64 defaultJobTimeout,
  field "stuck_threshold_secs" u64 defaultStuckThreshold,
  flagTrue "use_planning",
  field "repair_check_interval_secs" u64 defaultRepairInterval,
  field "max_repair_attempts" u32 defaultMaxRepairAttempts,
  field "session_idle_timeout_secs" u64 defaultSessionIdleTimeout,
  field "max_tool_iterations" usize defaultMaxToolIterations,
  flag "auto_approve_tools",
  field "default_timezone" .string defaultTimezone,
  field "max_tokens_per_job" u64 (number 0)]

def agentDefault : Json := record [
  ("name", defaultAgentName),
  ("max_parallel_jobs", defaultMaxParallelJobs),
  ("job_timeout_secs", defaultJobTimeout),
  ("stuck_threshold_secs", defaultStuckThreshold),
  ("use_planning", .bool true),
  ("repair_check_interval_secs", defaultRepairInterval),
  ("max_repair_attempts", defaultMaxRepairAttempts),
  ("session_idle_timeout_secs", defaultSessionIdleTimeout),
  ("max_tool_iterations", defaultMaxToolIterations),
  ("auto_approve_tools", .bool false),
  ("default_timezone", defaultTimezone),
  ("max_tokens_per_job", number 0)]

/-! ## Sandboxes -/

def defaultWasmMemoryLimit : Json := number (10 * 1024 * 1024)
def defaultWasmTimeout : Json := number 60
def defaultWasmFuelLimit : Json := number 10000000

def wasmSettings : Ty := .struct [
  flagTrue "enabled",
  optional "tools_dir" pathBuf,
  field "default_memory_limit" u64 defaultWasmMemoryLimit,
  field "default_timeout_secs" u64 defaultWasmTimeout,
  field "default_fuel_limit" u64 defaultWasmFuelLimit,
  flagTrue "cache_compiled",
  optional "cache_dir" pathBuf]

def wasmDefault : Json := record [
  ("enabled", .bool true),
  ("tools_dir", .null),
  ("default_memory_limit", defaultWasmMemoryLimit),
  ("default_timeout_secs", defaultWasmTimeout),
  ("default_fuel_limit", defaultWasmFuelLimit),
  ("cache_compiled", .bool true),
  ("cache_dir", .null)]

def defaultSandboxPolicy : Json := text "readonly"
def defaultSandboxTimeout : Json := number 120
def defaultSandboxMemory : Json := number 2048
def defaultSandboxCpuShares : Json := number 1024
def defaultSandboxImage : Json := text "ironclaw-worker:latest"

def sandboxSettings : Ty := .struct [
  flagTrue "enabled",
  field "policy" .string defaultSandboxPolicy,
  field "timeout_secs" u64 defaultSandboxTimeout,
  field "memory_limit_mb" u64 defaultSandboxMemory,
  field "cpu_shares" u32 defaultSandboxCpuShares,
  field "image" .string defaultSandboxImage,
  flagTrue "auto_pull_image",
  field "extra_allowed_domains" (.vec .string) (.arr []),
  flag "claude_code_enabled"]

def sandboxDefault : Json := record [
  ("enabled", .bool true),
  ("policy", defaultSandboxPolicy),
  ("timeout_secs", defaultSandboxTimeout),
  ("memory_limit_mb", defaultSandboxMemory),
  ("cpu_shares", defaultSandboxCpuShares),
  ("image", defaultSandboxImage),
  ("auto_pull_image", .bool true),
  ("extra_allowed_domains", .arr []),
  ("claude_code_enabled", .bool false)]

/-! ## Safety, builder, transcription -/

def defaultMaxOutputLength : Json := number 100000

def safetySettings : Ty := .struct [
  field "max_output_length" usize defaultMaxOutputLength,
  flagTrue "injection_check_enabled"]

def safetyDefault : Json := record [
  ("max_output_length", defaultMaxOutputLength),
  ("injection_check_enabled", .bool true)]

def defaultBuilderMaxIterations : Json := number 20
def defaultBuilderTimeout : Json := number 600

def builderSettings : Ty := .struct [
  flagTrue "enabled",
  optional "build_dir" pathBuf,
  field "max_iterations" u32 defaultBuilderMaxIterations,
  field "timeout_secs" u64 defaultBuilderTimeout,
  flagTrue "auto_register"]

def builderDefault : Json := record [
  ("enabled", .bool true),
  ("build_dir", .null),
  ("max_iterations", defaultBuilderMaxIterations),
  ("timeout_secs", defaultBuilderTimeout),
  ("auto_register", .bool true)]

def transcriptionSettings : Ty := .struct [flag "enabled"]

/-! ## All of them -/

/-- The fields of `Settings` that are serialized. -/
def fields : List (Field × Ty) := [
  aliased "onboard_completed" "setup_completed" .bool (.bool false),
  optional "owner_id" .string,
  optional "database_backend" .string,
  optional "database_url" .string,
  optional "database_pool_size" usize,
  optional "libsql_path" .string,
  optional "libsql_url" .string,
  field "secrets_master_key_source" keySource (text "none"),
  optional "llm_backend" .string,
  field "llm_custom_providers" (.vec customLlmProviderSettings) (.arr []),
  field "llm_builtin_overrides" (.map llmBuiltinOverride) (record []),
  optional "ollama_base_url" .string,
  optional "openai_compatible_base_url" .string,
  optional "bedrock_region" .string,
  optional "bedrock_cross_region" .string,
  optional "bedrock_profile" .string,
  optional "selected_model" .string,
  field "embeddings" embeddingsSettings embeddingsDefault,
  field "tunnel" tunnelSettings tunnelDefault,
  field "channels" channelSettings channelDefault,
  field "heartbeat" heartbeatSettings heartbeatDefault,
  aliased "profile_onboarding_completed" "personal_onboarding_completed" .bool (.bool false),
  field "agent" agentSettings agentDefault,
  field "wasm" wasmSettings wasmDefault,
  field "sandbox" sandboxSettings sandboxDefault,
  field "safety" safetySettings safetyDefault,
  field "builder" builderSettings builderDefault,
  optional "transcription" transcriptionSettings]

def ty : Ty := .struct fields

def shownDefault : Json := record [
  ("onboard_completed", .bool false),
  ("owner_id", .null),
  ("database_backend", .null),
  ("database_url", .null),
  ("database_pool_size", .null),
  ("libsql_path", .null),
  ("libsql_url", .null),
  ("secrets_master_key_source", text "none"),
  ("llm_backend", .null),
  ("llm_custom_providers", .arr []),
  ("llm_builtin_overrides", record []),
  ("ollama_base_url", .null),
  ("openai_compatible_base_url", .null),
  ("bedrock_region", .null),
  ("bedrock_cross_region", .null),
  ("bedrock_profile", .null),
  ("selected_model", .null),
  ("embeddings", embeddingsDefault),
  ("tunnel", tunnelDefault),
  ("channels", channelDefault),
  ("heartbeat", heartbeatDefault),
  ("profile_onboarding_completed", .bool false),
  ("agent", agentDefault),
  ("wasm", wasmDefault),
  ("sandbox", sandboxDefault),
  ("safety", safetyDefault),
  ("builder", builderDefault),
  ("transcription", .null)]

/-! ## The defaults are values -/

theorem admits_embeddings : admits embeddingsSettings embeddingsDefault = true := by
  simp only [embeddingsSettings, embeddingsDefault, flag, field, record, List.map_cons, List.map_nil,
    admits, admitsFields, beq_self_eq_true, Bool.and_self, defaultEmbeddingsProvider, defaultEmbeddingsModel, text]

theorem admits_tunnel : admits tunnelSettings tunnelDefault = true := by
  simp only [tunnelSettings, tunnelDefault, flag, optional, field, record, List.map_cons, List.map_nil, admits,
    admitsFields, beq_self_eq_true, decide_true, Bool.true_or, Bool.and_self]

theorem admits_channels : admits channelSettings channelDefault = true := by
  simp only [channelSettings, channelDefault, flag, flagTrue, optional, field, record, List.map_cons,
    List.map_nil, admits,
    admitsFields, beq_self_eq_true, decide_true, Bool.true_or, List.all_nil, OrderedMap.InOrder, List.Pairwise.nil,
    Bool.and_self]

theorem admits_heartbeat : admits heartbeatSettings heartbeatDefault = true := by
  simp only [heartbeatSettings, heartbeatDefault, defaultHeartbeatInterval, u64, number, flag, optional, field, record,
    List.map_cons, List.map_nil, admits, admitsFields, beq_self_eq_true, decide_true, Bool.true_or, Bool.true_and]
  decide

theorem admits_agent : admits agentSettings agentDefault = true := by
  simp only [agentSettings, agentDefault, defaultAgentName, defaultMaxParallelJobs, defaultJobTimeout,
    defaultStuckThreshold,
    defaultRepairInterval, defaultMaxRepairAttempts, defaultSessionIdleTimeout, defaultMaxToolIterations,
    defaultTimezone,
    u32, u64, usize, number, text, flag, flagTrue, field, record, List.map_cons, List.map_nil, admits, admitsFields,
    beq_self_eq_true, Bool.true_and]
  decide

theorem admits_wasm : admits wasmSettings wasmDefault = true := by
  simp only [wasmSettings, wasmDefault, defaultWasmMemoryLimit, defaultWasmTimeout, defaultWasmFuelLimit, u64, number,
    flagTrue, optional, field, record, List.map_cons, List.map_nil, admits, admitsFields, beq_self_eq_true, decide_true,
    Bool.true_or, Bool.true_and]
  decide

theorem admits_sandbox : admits sandboxSettings sandboxDefault = true := by
  simp only [sandboxSettings, sandboxDefault, defaultSandboxPolicy, defaultSandboxTimeout, defaultSandboxMemory,
    defaultSandboxCpuShares, defaultSandboxImage, u32, u64, number, text, flag, flagTrue, field, record, List.map_cons,
    List.map_nil, admits, admitsFields, beq_self_eq_true, List.all_nil, Bool.true_and]
  decide

theorem admits_safety : admits safetySettings safetyDefault = true := by
  simp only [safetySettings, safetyDefault, defaultMaxOutputLength, usize, number, flagTrue, field, record,
    List.map_cons, List.map_nil, admits, admitsFields, beq_self_eq_true, Bool.true_and]
  decide

theorem admits_builder : admits builderSettings builderDefault = true := by
  simp only [builderSettings, builderDefault, defaultBuilderMaxIterations, defaultBuilderTimeout, u32, u64,
    number, flagTrue,
    optional, field, record, List.map_cons, List.map_nil, admits, admitsFields, beq_self_eq_true,
    decide_true, Bool.true_or, Bool.true_and]
  decide

theorem admits_shownDefault : admits ty shownDefault = true := by
  simp only [ty, fields, shownDefault, aliased, optional, field, record, List.map_cons, List.map_nil,
    admits, admitsFields,
    beq_self_eq_true, decide_true, Bool.true_or, List.all_nil, OrderedMap.InOrder, List.Pairwise.nil,
    Bool.true_and, text,
    admits_embeddings, admits_tunnel, admits_channels, admits_heartbeat, admits_agent, admits_wasm, admits_sandbox,
    admits_safety, admits_builder]
  decide

/-! ## The types are in order -/

theorem wf_parts : wf customLlmProviderSettings = true ∧ wf llmBuiltinOverride = true ∧ wf embeddingsSettings = true ∧
    wf tunnelSettings = true ∧ wf channelSettings = true ∧ wf heartbeatSettings = true ∧ wf agentSettings = true ∧
    wf wasmSettings = true ∧ wf sandboxSettings = true ∧ wf safetySettings = true ∧ wf builderSettings = true ∧
    wf transcriptionSettings = true := by
  decide_cbv

/-- No two fields have a name in common, and no alias is a name. -/
theorem names_fields : (names fields).Nodup ∧ (names fields).contains "setup_completed".toList = false ∧
    (names fields).contains "personal_onboarding_completed".toList = false := by
  decide_cbv

section Fields

variable {all : List Str} {name aliasName : String} {t : Ty} {d : Json} {rest : List (Field × Ty)}

theorem wfFields_field (ht : wf t = true) (hd : admits t d = true) (hrest : wfFields all rest = true) :
    wfFields all (field name t d :: rest) = true := by
  simp [field, wfFields, ht, hd, hrest]

theorem wfFields_optional (ht : wf t = true) (hoption : t.isOption = false) (hrest : wfFields all rest = true) :
    wfFields all (optional name t :: rest) = true := by
  simp [optional, field, wfFields, wf, admits, ht, hoption, hrest]

theorem wfFields_aliased (ht : wf t = true) (hd : admits t d = true) (halias : all.contains aliasName.toList = false)
    (hrest : wfFields all rest = true) : wfFields all (aliased name aliasName t d :: rest) = true := by
  simp only [aliased, wfFields, ht, Option.all_some, hd, halias, hrest]
  rfl

end Fields

theorem wf_fields {all : List Str} (hsetup : all.contains "setup_completed".toList = false)
    (hpersonal : all.contains "personal_onboarding_completed".toList = false) : wfFields all fields = true := by
  obtain ⟨hprovider, hoverride, hembeddings, htunnel, hchannels, hheartbeat, hagent, hwasm, hsandbox, hsafety, hbuilder,
    htranscription⟩ := wf_parts
  unfold fields
  refine wfFields_aliased rfl rfl hsetup ?_
  iterate 6 refine wfFields_optional rfl rfl ?_
  refine wfFields_field rfl (by decide) ?_
  refine wfFields_optional rfl rfl ?_
  refine wfFields_field hprovider rfl ?_
  refine wfFields_field (by simp [wf, hoverride]; rfl) rfl ?_
  iterate 6 refine wfFields_optional rfl rfl ?_
  refine wfFields_field hembeddings admits_embeddings ?_
  refine wfFields_field htunnel admits_tunnel ?_
  refine wfFields_field hchannels admits_channels ?_
  refine wfFields_field hheartbeat admits_heartbeat ?_
  refine wfFields_aliased rfl rfl hpersonal ?_
  refine wfFields_field hagent admits_agent ?_
  refine wfFields_field hwasm admits_wasm ?_
  refine wfFields_field hsandbox admits_sandbox ?_
  refine wfFields_field hsafety admits_safety ?_
  refine wfFields_field hbuilder admits_builder ?_
  exact wfFields_optional htranscription rfl rfl

theorem wf_ty : wf ty = true := by
  obtain ⟨hnames, hsetup, hpersonal⟩ := names_fields
  rw [ty, wf, Bool.and_eq_true, decide_eq_true_eq]
  exact ⟨hnames, wf_fields hsetup hpersonal⟩

theorem depth_ty : ty.depth ≤ JsonText.MAX_NESTING := by
  decide

end Ironclaw.Settings

namespace Ironclaw

open Serde

/-- `Settings` -/
structure Settings where
  /-- The fields that are serialized. -/
  shown : Json
  secretsMasterKeyHex : Option Str
  admitted : admits Settings.ty shown = true

namespace Settings

/-- `Settings::default` -/
def default : Settings := ⟨shownDefault, none, admits_shownDefault⟩

def toValue (s : Settings) : Json := Serde.toValue ty s.shown

/-- What is read of the field that is not serialized; a missing one is absent. -/
def readHex (j : Json) : Option Json :=
  Serde.fromValue (.option .string) ((j.get "secrets_master_key_hex".toList).getD .null)

/-- `serde_json::from_value` -/
def fromValue (j : Json) : Option Settings :=
  match h : Serde.fromValue ty j with
  | none => none
  | some shown => (readHex j).map fun hex => ⟨shown, hex.asStr, admits_fromValue wf_ty h⟩

theorem shown_of_fromValue {j : Json} {s : Settings} (h : fromValue j = some s) :
    Serde.fromValue ty j = some s.shown := by
  unfold fromValue at h
  split at h
  · cases h
  next hshown =>
    obtain ⟨hex, -, rfl⟩ := Option.map_eq_some_iff.mp h
    exact hshown

theorem exists_of_shown {j shown hex : Json} (h : Serde.fromValue ty j = some shown) (hhex : readHex j = some hex) :
    ∃ s, fromValue j = some s := by
  unfold fromValue
  split
  next hnone =>
    rw [h] at hnone
    cases hnone
  · exact ⟨_, Option.map_eq_some_iff.mpr ⟨hex, hhex, rfl⟩⟩

end Settings

end Ironclaw
