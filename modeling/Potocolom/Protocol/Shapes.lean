import Potocolom.Protocol.Canonical

/-! # The catalogue of message shapes

Every message kind has one or more rows: the fields a message of that kind must
carry and those it may. The rows are kept as the catalogue writes them, with the
field names joined by commas. -/

namespace Potocolom.Protocol

structure Row where
  kind : String
  required : String
  optional : String

def shapeRows : List Row := [
  ⟨"open_session", "attempt_id,body_hash,command_id,command_sequence,control_generation,grant_nonce,incarnation,lease_expires_at,lease_id,model_id,owner_epoch,params,region,session_id,type,work_budget,worker_id", ""⟩,
  ⟨"update_session", "attempt_id,body_hash,command_id,command_sequence,control_generation,grant_nonce,incarnation,lease_expires_at,lease_id,model_id,owner_epoch,params,params_revision,region,session_id,type,worker_id", ""⟩,
  ⟨"close_session", "attempt_id,body_hash,command_id,command_sequence,control_generation,grant_nonce,incarnation,lease_expires_at,lease_id,owner_epoch,region,session_id,type,worker_id", ""⟩,
  ⟨"dispatch_job", "body_hash,command_id,command_sequence,dispatch_sequence,dispatch_token,grant_nonce,incarnation,job_id,lease_expires_at,lease_id,model_id,owner_epoch,params,region,type,upload,work_budget,worker_id", "input,thumb_upload"⟩,
  ⟨"cancel_job", "body_hash,command_id,command_sequence,dispatch_sequence,dispatch_token,grant_nonce,incarnation,job_id,lease_expires_at,lease_id,owner_epoch,region,type,worker_id", ""⟩,
  ⟨"pause_job", "body_hash,command_id,command_sequence,dispatch_sequence,dispatch_token,grant_nonce,incarnation,job_id,lease_expires_at,lease_id,owner_epoch,region,type,worker_id", ""⟩,
  ⟨"resume_job", "body_hash,checkpoint,command_id,command_sequence,dispatch_sequence,dispatch_token,grant_nonce,incarnation,job_id,lease_expires_at,lease_id,model_id,owner_epoch,params,parent_dispatch_sequence,region,type,upload,work_budget,worker_id", "input,thumb_upload"⟩,
  ⟨"drain_worker", "body_hash,command_id,command_sequence,grant_nonce,incarnation,lease_expires_at,lease_id,owner_epoch,region,type,worker_id", ""⟩,
  ⟨"hello", "capabilities,compatible_versions,device,grant_nonce,incarnation,memory_mode,models,protocol_version,realtime_slots,type,worker_id", "previous_incarnation,realtime_batch_ms,realtime_p95_ms"⟩,
  ⟨"registered", "grant_nonce,incarnation,lease_expires_at,lease_id,owner_epoch,protocol_version,ready,region,remaining_ms,transport_owner_id,type,worker_id", "model_store"⟩,
  ⟨"grant_request", "grant_nonce,incarnation,region,type,worker_id", ""⟩,
  ⟨"work_grant", "grant_nonce,incarnation,lease_expires_at,lease_id,owner_epoch,ready,region,remaining_ms,type,worker_id", ""⟩,
  ⟨"command_ack", "attempt_id,body_hash,command_id,command_sequence,control_generation,grant_nonce,incarnation,lease_expires_at,lease_id,owner_epoch,region,session_id,status,type,worker_id", ""⟩,
  ⟨"checkpoint", "attempt_id,control_generation,duration_ms,frames,gpu_ms,incarnation,owner_epoch,range_id,region,report_hash,report_sequence,session_id,type,worker_id", ""⟩,
  ⟨"checkpoint_ack", "attempt_id,control_generation,duration_ms,frames,gpu_ms,incarnation,owner_epoch,range_id,region,report_hash,report_sequence,session_id,status,type,worker_id", ""⟩,
  ⟨"rejected", "min_supported_version,reason,type", ""⟩,
  ⟨"heartbeat", "frame_p95_ms,gpu,incarnation,loaded_models,region,slots_in_use,type,worker_id", "memory_mode"⟩,
  ⟨"session_ready", "attempt_id,control_generation,grant_nonce,incarnation,lease_expires_at,lease_id,owner_epoch,params_revision,region,session_id,type,worker_id", ""⟩,
  ⟨"session_refused", "attempt_id,code,control_generation,grant_nonce,incarnation,lease_expires_at,lease_id,owner_epoch,region,session_id,type,worker_id", ""⟩,
  ⟨"session_closed", "attempt_id,category,control_generation,duration_ms,frames,gpu_ms,grant_nonce,incarnation,lease_expires_at,lease_id,owner_epoch,physical_complete,range_id,region,report_hash,report_sequence,session_id,type,worker_id", "category_score"⟩,
  ⟨"job_done", "category,dispatch_sequence,dispatch_token,duration_ms,gpu_ms,grant_nonce,height,images,incarnation,job_id,lease_expires_at,lease_id,owner_epoch,physical_complete,range_id,region,report_hash,report_sequence,type,width,worker_id", "category_score,has_thumbnail,input_fetch_ms,load_ms,postprocess_ms"⟩,
  ⟨"job_failed", "dispatch_sequence,dispatch_token,duration_ms,failure_code,gpu_ms,grant_nonce,images,incarnation,job_id,lease_expires_at,lease_id,owner_epoch,physical_complete,range_id,reason,region,report_hash,report_sequence,type,worker_id", ""⟩,
  ⟨"job_cancelled", "dispatch_sequence,dispatch_token,duration_ms,gpu_ms,grant_nonce,images,incarnation,job_id,lease_expires_at,lease_id,owner_epoch,physical_complete,range_id,region,report_hash,report_sequence,type,worker_id", ""⟩,
  ⟨"job_paused", "checkpoint,dispatch_sequence,dispatch_token,duration_ms,gpu_ms,grant_nonce,images,incarnation,job_id,lease_expires_at,lease_id,owner_epoch,physical_complete,range_id,region,report_hash,report_sequence,type,worker_id", ""⟩,
  ⟨"job_progress", "dispatch_sequence,dispatch_token,grant_nonce,incarnation,job_id,lease_expires_at,lease_id,owner_epoch,phase,progress,region,step,steps,type,worker_id", ""⟩,
  ⟨"worker_drained", "active_attempt_count,drain_id,final_reports,incarnation,owner_epoch,physical_complete,region,type,worker_id", ""⟩,
  ⟨"predecessor_report", "incarnation,previous_incarnation,region,report,type,worker_id", ""⟩,
  ⟨"prepare_realtime_class", "attempt_id,control_generation,envelope_revision,grant_nonce,incarnation,lease_expires_at,lease_id,model_id,model_revision,owner_epoch,params,params_hash,params_revision,region,request_id,session_id,type,worker_id", ""⟩,
  ⟨"class_prepared", "attempt_id,class_components,class_id,control_generation,envelope_revision,grant_nonce,incarnation,lease_expires_at,lease_id,measured_envelope_id,model_id,model_revision,owner_epoch,params_hash,params_revision,region,request_id,serial_cost_ms,session_id,type,worker_id", ""⟩,
  ⟨"class_refused", "attempt_id,code,control_generation,envelope_revision,grant_nonce,incarnation,lease_expires_at,lease_id,model_id,model_revision,owner_epoch,params_hash,params_revision,region,request_id,session_id,type,worker_id", ""⟩,
  ⟨"gpu_status", "incarnation,region,request_id,type,worker_id", ""⟩,
  ⟨"install_model", "incarnation,model_id,type,worker_id", "op_id"⟩,
  ⟨"cancel_install", "incarnation,model_id,type,worker_id", "op_id"⟩,
  ⟨"remove_model", "incarnation,model_id,type,worker_id", "op_id"⟩,
  ⟨"store_status", "disk_free_bytes,downloads,incarnation,type,worker_id", ""⟩,
  ⟨"store_inventory", "catalog,hardware,incarnation,op_id,type,worker_id", ""⟩,
  ⟨"models_changed", "catalog,incarnation,models,type,worker_id", ""⟩,
  ⟨"gpu_status", "envelope_revision,gpu,incarnation,loaded_models,region,request_id,type,worker_id", ""⟩,
  ⟨"load_model", "body_hash,command_id,command_sequence,grant_nonce,incarnation,lease_expires_at,lease_id,model_id,model_revision,owner_epoch,profile,region,request_id,type,worker_id", ""⟩,
  ⟨"unload_model", "body_hash,command_id,command_sequence,grant_nonce,incarnation,lease_expires_at,lease_id,model_id,owner_epoch,region,request_id,type,worker_id", ""⟩,
  ⟨"model_loaded", "envelope_revision,grant_nonce,incarnation,lease_expires_at,lease_id,loaded_models,model_id,owner_epoch,region,request_id,type,worker_id", "load_ms"⟩,
  ⟨"model_unloaded", "envelope_revision,grant_nonce,incarnation,lease_expires_at,lease_id,loaded_models,model_id,owner_epoch,region,request_id,type,worker_id", ""⟩,
  ⟨"gpu_error", "envelope_revision,failure_code,grant_nonce,incarnation,lease_expires_at,lease_id,loaded_models,model_id,owner_epoch,reason,region,request_id,type,worker_id", ""⟩,
  ⟨"checkpoint_ack", "attempt_id,code,control_generation,duration_ms,frames,gpu_ms,incarnation,owner_epoch,range_id,region,report_hash,report_sequence,session_id,status,type,worker_id", ""⟩,
  ⟨"command_ack", "attempt_id,body_hash,code,command_id,command_sequence,control_generation,grant_nonce,incarnation,lease_expires_at,lease_id,owner_epoch,region,session_id,status,type,worker_id", ""⟩,
  ⟨"command_ack", "attempt_id,body_hash,code,command_id,command_sequence,control_generation,expected_sequence,grant_nonce,incarnation,lease_expires_at,lease_id,owner_epoch,region,session_id,status,type,worker_id", ""⟩,
  ⟨"registered", "protocol_version,type", ""⟩,
  ⟨"checkpoint", "dispatch_sequence,duration_ms,gpu_ms,images,incarnation,job_id,owner_epoch,range_id,region,report_hash,report_sequence,type,worker_id", ""⟩,
  ⟨"checkpoint_ack", "dispatch_sequence,duration_ms,gpu_ms,images,incarnation,job_id,owner_epoch,range_id,region,report_hash,report_sequence,status,type,worker_id", ""⟩,
  ⟨"checkpoint_ack", "code,dispatch_sequence,duration_ms,gpu_ms,images,incarnation,job_id,owner_epoch,range_id,region,report_hash,report_sequence,status,type,worker_id", ""⟩,
  ⟨"command_ack", "body_hash,command_id,command_sequence,dispatch_sequence,grant_nonce,incarnation,job_id,lease_expires_at,lease_id,owner_epoch,region,status,type,worker_id", ""⟩,
  ⟨"command_ack", "body_hash,code,command_id,command_sequence,dispatch_sequence,grant_nonce,incarnation,job_id,lease_expires_at,lease_id,owner_epoch,region,status,type,worker_id", ""⟩,
  ⟨"command_ack", "body_hash,command_id,command_sequence,grant_nonce,incarnation,lease_expires_at,lease_id,model_id,owner_epoch,region,request_id,status,type,worker_id", ""⟩,
  ⟨"command_ack", "body_hash,code,command_id,command_sequence,grant_nonce,incarnation,lease_expires_at,lease_id,model_id,owner_epoch,region,request_id,status,type,worker_id", ""⟩,
  ⟨"command_ack", "body_hash,code,command_id,command_sequence,dispatch_sequence,expected_sequence,grant_nonce,incarnation,job_id,lease_expires_at,lease_id,owner_epoch,region,status,type,worker_id", ""⟩,
  ⟨"command_ack", "body_hash,code,command_id,command_sequence,expected_sequence,grant_nonce,incarnation,lease_expires_at,lease_id,model_id,owner_epoch,region,request_id,status,type,worker_id", ""⟩,
  ⟨"command_ack", "body_hash,command_id,command_sequence,grant_nonce,incarnation,lease_expires_at,lease_id,owner_epoch,region,status,type,worker_id", ""⟩,
  ⟨"command_ack", "body_hash,code,command_id,command_sequence,grant_nonce,incarnation,lease_expires_at,lease_id,owner_epoch,region,status,type,worker_id", ""⟩,
  ⟨"command_ack", "body_hash,code,command_id,command_sequence,expected_sequence,grant_nonce,incarnation,lease_expires_at,lease_id,owner_epoch,region,status,type,worker_id", ""⟩]

/-- `text.split(",")`: a text without commas, the empty one included, is one part. -/
def splitComma : List Char → List Char → List String
  | part, [] => [String.ofList part.reverse]
  | part, c :: rest =>
    if c = ',' then String.ofList part.reverse :: splitComma [] rest
    else splitComma (c :: part) rest

def split (text : String) : List String := splitComma [] text.toList

theorem split_ofList (chars : List Char) : split (String.ofList chars) = splitComma [] chars := by
  rw [split, String.toList_ofList]

namespace Row

def requiredKeys (row : Row) : List String := split row.required

def optionalKeys (row : Row) : List String := split row.optional

/-- The fields the row declares as optional: none where it leaves the list empty. -/
def declaredOptional (row : Row) : List String :=
  if row.optional = "" then [] else split row.optional

/-- `req <= actual and actual <= req | optional`. -/
def fits (row : Row) (actual : List Text) : Bool :=
  (row.requiredKeys.all fun name => decide (Text.scalars name ∈ actual)) &&
    actual.all fun key => key.isIn (row.requiredKeys ++ row.optionalKeys)

end Row

/-- `_SHAPES[kind]`: the rows of a kind. -/
def shapes (kind : Text) : List Row := shapeRows.filter fun row => decide (Text.scalars row.kind = kind)

/-! ## What a fitting row says about the keys -/

theorem Text.isIn_iff {text : Text} {names : List String} :
    text.isIn names = true ↔ ∃ s ∈ names, text = .scalars s := by
  cases text <;> simp [Text.isIn]

theorem Row.fits_iff {row : Row} {actual : List Text} :
    row.fits actual = true ↔
      (∀ name ∈ row.requiredKeys, Text.scalars name ∈ actual) ∧
        ∀ key ∈ actual, ∃ s ∈ row.requiredKeys ++ row.optionalKeys, key = .scalars s := by
  simp only [Row.fits, Bool.and_eq_true, List.all_eq_true, decide_eq_true_eq, Text.isIn_iff]

/-- Splitting leaves one name too many: the empty one, when no optional field is
declared. Every other name that it yields is declared. -/
theorem Row.mem_optionalKeys {row : Row} {name : String} (h : name ∈ row.optionalKeys) :
    name = "" ∨ name ∈ row.declaredOptional := by
  unfold Row.optionalKeys at h
  unfold Row.declaredOptional
  by_cases hempty : row.optional = ""
  · rw [hempty] at h
    have hsplit : split "" = [""] := by decide
    rw [hsplit] at h
    exact .inl (List.mem_singleton.1 h)
  · rw [if_neg hempty]
    exact .inr h

theorem mem_shapes {kind : Text} {row : Row} :
    row ∈ shapes kind ↔ row ∈ shapeRows ∧ Text.scalars row.kind = kind := by
  simp [shapes]

end Potocolom.Protocol
