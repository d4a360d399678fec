import FaultTolerance.Catalog.Basic
import FaultTolerance.Java.Annotation

/-! The fault tolerance annotations: their parameters with types, defaults and documentation,
and how an annotation in a source is matched with its entry. -/
namespace FaultTolerance.Catalog

/-! ## Building entries -/

/-- The type of the units of time. -/
def chronoUnitType : String := "java.time.temporal.ChronoUnit"

/-- The units of time in the order of their declaration. -/
def chronoUnit : EnumHint where
  name := chronoUnitType
  values := ["NANOS", "MICROS", "MILLIS", "SECONDS", "MINUTES", "HALF_DAYS", "DAYS", "WEEKS",
    "MONTHS", "YEARS", "DECADES", "CENTURIES", "MILLENNIA", "ERAS", "FOREVER"]

/-- A parameter that is a member of the annotation type. -/
def parameter (name type : String) (default? : Option String) (sourceMethod : String)
    (summary : Option String) (returns : String) : Parameter :=
  { name, type, default?, summary, returns := some returns, sourceMethod := some sourceMethod,
    hint := none }

/-- A unit of time, milliseconds by default. -/
def unitParameter (name sourceMethod : String) (summary : Option String) (returns : String) :
    Parameter :=
  { parameter name chronoUnitType (some "MILLIS") sourceMethod summary returns with
    hint := some chronoUnit }

/-- A list of exception types. -/
def classesParameter (name default sourceMethod summary returns : String) : Parameter :=
  parameter name "java.lang.Class<? extends java.lang.Throwable>[]" (some default) sourceMethod
    (some summary) returns

/-- The switch that every policy has. It is no member of the annotation type. -/
def enabled : Parameter where
  name := "enabled"
  type := "boolean"
  default? := some "true"
  summary := some "Enabling the policy"
  returns := none
  sourceMethod := none
  hint := none

/-- The parameter that names a fallback method. -/
def fallbackMethod : String := "fallbackMethod"

/-! ## The annotations -/

def asynchronous : Spec where
  qualifiedName := "org.eclipse.microprofile.faulttolerance.Asynchronous"
  parameters := [enabled]

def bulkhead : Spec where
  qualifiedName := "org.eclipse.microprofile.faulttolerance.Bulkhead"
  parameters := [
    parameter "value" "int" (some "10") "value()I"
      (some ("Specify the maximum number of concurrent calls to an instance. The value must be " ++
        "greater than 0. Otherwise, " ++
        "`org.eclipse.microprofile.faulttolerance.exceptions.FaultToleranceDefinitionException` " ++
        "occurs."))
      "the limit of the concurrent calls",
    parameter "waitingTaskQueue" "int" (some "10") "waitingTaskQueue()I"
      (some ("Specify the waiting task queue. This setting only takes effect on asynchronous " ++
        "invocation. The value must be greater than 0. Otherwise, " ++
        "`org.eclipse.microprofile.faulttolerance.exceptions.FaultToleranceDefinitionException` " ++
        "occurs."))
      "the size of the waiting queue of the asynchronous calls",
    enabled]

def circuitBreaker : Spec where
  qualifiedName := "org.eclipse.microprofile.faulttolerance.CircuitBreaker"
  parameters := [
    classesParameter "failOn" "java.lang.Throwable" "failOn()[Ljava/lang/Class;"
      ("The list of exception types which should be considered failures. Note that if a " ++
       "method throws a Throwable which is not an Error or Exception, non-portable behavior " ++
       "results.")
      "the exception types which should be considered failures",
    classesParameter "skipOn" "" "skipOn()[Ljava/lang/Class;"
      ("The list of exception types which should not be considered failures. This list takes " ++
       "priority over the types listed in failOn.")
      "the exception types which should not be considered failures",
    parameter "delay" "long" (some "5000") "delay()J"
      (some ("The delay after which an open circuit will transitions to half-open state. The " ++
        "amount of delay is taken from this delay value and the delayUnit, and defaults to " ++
        "five seconds. The value must be greater than or equal to 0. 0 means no delay."))
      "The delay time after which an open circuit transitions to half-open state",
    unitParameter "delayUnit" "delayUnit()Ljava/time/temporal/ChronoUnit;"
      (some ("The unit of the delay after which an open circuit will transitions to half-open " ++
        "state."))
      "The unit of the delay",
    parameter "requestVolumeThreshold" "int" (some "20") "requestVolumeThreshold()I"
      (some ("The number of consecutive requests in a rolling window. The value must be greater " ++
        "than or equal to 1."))
      "The number of the consecutive requests in a rolling window",
    parameter "failureRatio" "double" (some "0.5") "failureRatio()D"
      (some ("The ratio of failures within the rolling window that will trip the circuit to " ++
        "open. The value must be between 0 and 1 (inclusive)."))
      "The failure ratio to trip the circuit",
    parameter "successThreshold" "int" (some "1") "successThreshold()I"
      (some ("The number of successful executions, before a half-open circuit is closed again. " ++
        "The value must be greater than or equal to 1."))
      "The success threshold to fully close the circuit",
    enabled]

def fallback : Spec where
  qualifiedName := "org.eclipse.microprofile.faulttolerance.Fallback"
  parameters := [
    parameter "value"
      "java.lang.Class<? extends org.eclipse.microprofile.faulttolerance.FallbackHandler<?>>"
      (some "org.eclipse.microprofile.faulttolerance.Fallback$DEFAULT") "value()Ljava/lang/Class;"
      (some ("Specify the fallback class to be used. An new instance of the fallback class is " ++
        "returned. The instance is unmanaged. The type parameter of the fallback class must " ++
        "be assignable to the return type of the annotated method. Otherwise, " ++
        "`org.eclipse.microprofile.faulttolerance.exceptions.FaultToleranceDefinitionException` " ++
        "occurs."))
      "the fallback class",
    parameter fallbackMethod "java.lang.String" none "fallbackMethod()Ljava/lang/String;"
      (some ("Specify the method name to be fallbacked to. This method belongs to the same " ++
        "class as the method to fallback. The method must have the exactly same arguments as " ++
        "the method being annotated. The method return type must be assignable to the return " ++
        "type of the method the fallback is for."))
      "the local method to fallback to",
    classesParameter "applyOn" "java.lang.Throwable" "applyOn()[Ljava/lang/Class;"
      "The list of exception types which should trigger Fallback."
      "the exception types which should trigger Fallback",
    classesParameter "skipOn" "" "skipOn()[Ljava/lang/Class;"
      ("The list of exception types which should not trigger Fallback. This list takes " ++
       "priority over the types listed in applyOn.")
      "the exception types which should not trigger Fallback",
    enabled]

def retry : Spec where
  qualifiedName := "org.eclipse.microprofile.faulttolerance.Retry"
  parameters := [
    parameter "maxRetries" "int" (some "3") "maxRetries()I"
      none
      ("The max number of retries. -1 means retry forever. The value must be greater than or " ++
       "equal to -1."),
    parameter "delay" "long" (some "0") "delay()J"
      (some ("The delay between retries. Defaults to 0. The value must be greater than or " ++
        "equal to 0."))
      "the delay time",
    unitParameter "delayUnit" "delayUnit()Ljava/time/temporal/ChronoUnit;"
      none
      "the delay unit",
    parameter "maxDuration" "long" (some "180000") "maxDuration()J"
      (some ("The max duration. The max duration must be greater than the delay duration if " ++
        "set. 0 means not set."))
      "the maximum duration to perform retries for",
    unitParameter "durationUnit" "durationUnit()Ljava/time/temporal/ChronoUnit;"
      none
      "the duration unit",
    parameter "jitter" "long" (some "200") "jitter()J"
      (some ("Set the jitter to randomly vary retry delays for. The value must be greater " ++
        "than or equals to 0. 0 means not set. The effective delay will be [delay - jitter, " ++
        "delay + jitter] and always greater than or equal to 0. Negative effective delays " ++
        "will be 0."))
      ("the jitter that randomly vary retry delays by. e.g. a jitter of 200 milliseconds " ++
       "will randomly add between -200 and 200 milliseconds to each retry delay."),
    unitParameter "jitterDelayUnit" "jitterDelayUnit()Ljava/time/temporal/ChronoUnit;"
      none
      "the jitter delay unit",
    classesParameter "retryOn" "java.lang.Exception" "retryOn()[Ljava/lang/Class;"
      ("The list of exception types that should trigger a retry. Note that if a method " ++
       "throws a Throwable which is not an Error or Exception, non-portable behavior results.")
      "the exception types on which to retry",
    classesParameter "abortOn" "" "abortOn()[Ljava/lang/Class;"
      ("The list of exception types that should not trigger a retry. This list takes " ++
       "priority over the types listed in retryOn.")
      "the exception types on which to abort (not retry)",
    enabled]

def timeout : Spec where
  qualifiedName := "org.eclipse.microprofile.faulttolerance.Timeout"
  parameters := [
    parameter "value" "long" (some "1000") "value()J"
      (some ("The timeout value. The value must be greater than or equal to 0. 0 means no " ++
        "timeout configured. Otherwise, " ++
        "`org.eclipse.microprofile.faulttolerance.exceptions.FaultToleranceDefinitionException` " ++
        "occurs."))
      "the timeout value",
    unitParameter "unit" "unit()Ljava/time/temporal/ChronoUnit;"
      (some "The timeout unit. Defaults to milliseconds.")
      "the timeout unit",
    enabled]

/-- All annotations, in catalog order. -/
def annotations : List Spec := [asynchronous, bulkhead, circuitBreaker, fallback, retry, timeout]

/-! ## The switch for all policies -/

/-- The property that turns off every policy but fallback. -/
def nonFallbackEnabled : String := "MP_Fault_Tolerance_NonFallback_Enabled"

def nonFallbackEnabledDescription : String :=
  "Some service mesh platforms, e.g. Istio, have their own Fault Tolerance policy. The " ++
  "operation team might want to use the platform Fault Tolerance. In order to fix the fault " ++
  "tolerance policy, the property `MP_Fault_Tolerance_NonFallback_Enabled` with the value of " ++
  "`false` can be specified to disable all fault tolerance policies except `@Fallback`."

/-! ## Finding an entry -/

/-- The entry of a qualified name. -/
def lookup? (qualifiedName : String) : Option Spec :=
  annotations.find? (·.qualifiedName == qualifiedName)

/-- The entry that an annotation denotes, by its qualified name or by a simple name that could
not be resolved. -/
def resolve? (a : Java.Annotation) : Option Spec :=
  (lookup? a.name).orElse fun _ => annotations.find? fun s => a.matchesName s.qualifiedName

end FaultTolerance.Catalog
