import CosaiMcp.Scorecard.Models

/-!
# Compliance frameworks

The controls of other frameworks that a category is mapped to.
-/

namespace CosaiMcp.Scorecard

open Py

/-- `CATEGORY_COMPLIANCE_MAP`. -/
def categoryComplianceMap : Dict Str ComplianceMapping := .ofList
  [(lit "T1",
      ⟨lit "MCP01:2025 Token Mismanagement & Secret Exposure; " ++
        lit "MCP07:2025 Insufficient Authentication & Authorization",
        [lit "MANAGE 1.1 Risk Response", lit "GOVERN 6.2 Accountability"]⟩),
    (lit "T2",
      ⟨lit "MCP02:2025 Privilege Escalation via Scope Creep; " ++
        lit "MCP07:2025 Insufficient Authentication & Authorization",
        [lit "MANAGE 1.1 Risk Response", lit "MAP 1.1 System Context"]⟩),
    (lit "T3",
      ⟨lit "MCP03:2025 Tool Poisoning; " ++
        lit "MCP05:2025 Command Injection & Execution; " ++
        lit "MCP06:2025 Prompt Injection via Contextual Payloads",
        [lit "GOVERN 1.2 Accountability", lit "MEASURE 2.1 Assessment"]⟩),
    (lit "T4",
      ⟨lit "MCP03:2025 Tool Poisoning; MCP06:2025 Prompt Injection via Contextual Payloads",
        [lit "GOVERN 1.2", lit "MAP 1.1 System Context"]⟩),
    (lit "T5",
      ⟨lit "MCP10:2025 Context Injection & Over-Sharing",
        [lit "MAP 1.1", lit "MEASURE 2.6 Data Quality"]⟩),
    (lit "T6",
      ⟨lit "MCP03:2025 Tool Poisoning; " ++
        lit "MCP04:2025 Software Supply Chain Attacks & Dependency Tampering",
        [lit "MAP 4.1 Third-party Risks", lit "MANAGE 2.2"]⟩),
    (lit "T7",
      ⟨lit "MCP01:2025 Token Mismanagement & Secret Exposure",
        [lit "MAP 1.1 System Context", lit "MANAGE 1.1"]⟩),
    (lit "T8",
      ⟨lit "MCP09:2025 Shadow MCP Servers", [lit "MEASURE 2.1 Security Assessment"]⟩),
    (lit "T9",
      ⟨lit "MCP02:2025 Privilege Escalation via Scope Creep", [lit "GOVERN 1.2", lit "MAP 1.1"]⟩),
    (lit "T10",
      ⟨lit "Not mapped in OWASP MCP Top 10 (CoSAI MCP Security v2.0 §3.3.3)",
        [lit "MEASURE 2.1", lit "MANAGE 2.4"]⟩),
    (lit "T11",
      ⟨lit "MCP04:2025 Software Supply Chain Attacks & Dependency Tampering",
        [lit "MAP 4.1 Third-party Risks"]⟩),
    (lit "T12",
      ⟨lit "MCP08:2025 Lack of Audit and Telemetry", [lit "MEASURE 1.1 Performance Monitoring"]⟩)]

end CosaiMcp.Scorecard
